import Cadence.Archive.PrefixCode

/-!
The codes of a block of packed data, and what their symbols stand for: bytes, and repetitions by how
many bytes are repeated and from how far back.
-/

namespace Cadence.Archive

/-- The codes of a block. -/
structure Codes where
  /-- Bytes, the end of the block, and lengths of repetitions. -/
  literals : PrefixCode
  /-- How far back repetitions start. -/
  distances : PrefixCode

/-- The symbol that ends a block. -/
def endOfBlock : Nat := 256

/-- The codes that need not be written down. -/
def fixedCodes : Codes :=
  ⟨.ofLengths (List.replicate 144 8 ++ List.replicate 112 9 ++ List.replicate 24 7
      ++ List.replicate 8 8),
    .ofLengths (List.replicate 30 5)⟩

/-- For each symbol behind the end of the block, the least length and the number of bits that are
added to it. -/
def lengthSteps : List (Nat × Nat) :=
  [(3, 0), (4, 0), (5, 0), (6, 0), (7, 0), (8, 0), (9, 0), (10, 0), (11, 1), (13, 1), (15, 1),
    (17, 1), (19, 2), (23, 2), (27, 2), (31, 2), (35, 3), (43, 3), (51, 3), (59, 3), (67, 4),
    (83, 4), (99, 4), (115, 4), (131, 5), (163, 5), (195, 5), (227, 5), (258, 0)]

/-- For each distance symbol, the least distance and the number of bits that are added to it. -/
def distanceSteps : List (Nat × Nat) :=
  [(1, 0), (2, 0), (3, 0), (4, 0), (5, 1), (7, 1), (9, 2), (13, 2), (17, 3), (25, 3), (33, 4),
    (49, 4), (65, 5), (97, 5), (129, 6), (193, 6), (257, 7), (385, 7), (513, 8), (769, 8), (1025, 9),
    (1537, 9), (2049, 10), (3073, 10), (4097, 11), (6145, 11), (8193, 12), (12289, 12), (16385, 13),
    (24577, 13)]

/-- The symbols of the code for lengths, in the order in which their own lengths are written. -/
def lengthOrder : List Nat :=
  [16, 17, 18, 0, 8, 7, 9, 6, 10, 5, 11, 4, 12, 3, 13, 2, 14, 1, 15]

end Cadence.Archive
