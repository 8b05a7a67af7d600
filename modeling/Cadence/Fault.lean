import Cadence.Codec
import Cadence.Rational

/-!
Everything that can go wrong while a stream is read, checked or filtered, one constructor for each
cause. `Fault.category` sorts the causes by who has to act, and `Fault.message` gives the text that
is shown.
-/

namespace Cadence

/-- Why a file or a directory could not be used. -/
inductive FileFault
  | notFound
  | alreadyExists
  | invalidData
  | isDirectory
  | notDirectory
  | invalidInput
  | nameTooLong
  deriving DecidableEq, Repr

/-- Which of the two kinds of parameter sets is meant. -/
inductive SetKind
  | sequence
  | picture
  deriving DecidableEq, Repr

def SetKind.label : SetKind → String
  | .sequence => "SPS"
  | .picture => "PPS"

/-- A cause of failure with the values that describe it. -/
inductive Fault
  /-- The data ends before the field that is asked for. -/
  | endOfData
  | readWidth (width : Nat)
  | golombTooLong
  | overwriteWidth (width : Nat)
  | overwriteRange (offset width total : Nat)
  /-- The text is no fraction. -/
  | ratioText (text : String)
  | noCapacity
  | channelCount (channels : Nat)
  /-- A NAL length field of a size that does not exist. -/
  | lengthSize (size : Nat)
  | headerRoom (expected actual : Nat)
  | nalTooLong (length size : Nat)
  /-- Two start codes with nothing between them. -/
  | missingNal (offset : Nat)
  | nalLength (length remaining : Nat)
  | emptyNal
  | forbiddenBit (header : UInt8)
  | recordTooShort (length : Nat)
  | recordVersion (version : Nat)
  | recordLengthCut (kind : SetKind) (index : Nat)
  | recordDataCut (kind : SetKind) (index length remaining : Nat)
  | recordWithoutPictureSets
  | shortSequenceSet
  | noSequenceSet
  | tooManySets (sequence picture : Nat)
  | setTooLong (length : Nat)
  | spsTooShort
  /-- A sequence parameter set id beyond 31. -/
  | spsId (id : Nat)
  | chromaFormat (value : Nat)
  | bitDepth (luma chroma : Nat)
  | scalingDelta (value : Int)
  | log2MaxFrameNum (value : Nat)
  | log2MaxPocLsb (value : Nat)
  | pocCycle (value : Nat)
  | pocType (value : Nat)
  | refFrames (value : Nat)
  | pictureSize (width height : Nat)
  | cropping (width height cropX cropY : Nat)
  | emptyPps
  /-- A picture parameter set id beyond 255. -/
  | ppsId (id : Nat)
  | sliceGroups (value : Nat)
  | sliceGroupMap (value : Nat)
  | defaultRefs (list0 list1 : Nat)
  | weightedBipred (value : Nat)
  | initialQp (value : Int)
  | chromaQpOffset (value : Int)
  | noExtradata
  | unknownPps (id : Nat)
  | unknownSps (pps id : Nat)
  | slicePpsId (id : Nat)
  /-- An escape byte lies before the end of a frame number. -/
  | escapedFrameNum
  /-- The stream is no coded video of the kind that the filter takes on. -/
  | notH264 (codec : Codec)
  | missingExtradata
  /-- The length fields of the stream have a size that the filter does not take on. -/
  | lengthSizeNotServed (size : Nat)
  | interlaced
  | pocTypeNotServed (value : Nat)
  | sliceGroupMapNotServed (value : Nat)
  | refFramesNotServed (value : Nat)
  | noTemplate (size : Resolution)
  | frameRate (rate : Rational)
  | frameDuration (rate timeBase : Rational)
  /-- A packet was sent before all output for the one before it had been taken. -/
  | notDrained (label : String)
  | needMoreData
  | file (fault : FileFault)
  /-- A number outgrows its word. Nobody is told: what is going on breaks off at once. -/
  | overflow
  deriving DecidableEq, Repr

namespace Fault

/-- Who has to act on a fault. -/
inductive Category
  /-- The caller passed something that cannot be used. -/
  | invalidArgument
  /-- The stream is well formed and needs something that is not there. -/
  | unsupported
  /-- The stream is damaged or cut off. -/
  | invalidData
  /-- Calls came in the wrong order. -/
  | invalidState
  /-- Nothing is wrong: the next packet is wanted. -/
  | needMoreData
  | endOfStream
  | file
  /-- The program broke off in the middle of what it was doing. -/
  | brokenOff
  deriving DecidableEq, Repr

/-- The start of each message of a category, or the whole of it. -/
def Category.heading : Category → String
  | .invalidArgument => "无效参数: "
  | .unsupported => "不支持: "
  | .invalidData => "无效数据: "
  | .invalidState => "无效状态: "
  | .needMoreData => "需要更多输入"
  | .endOfStream => "已到达流末尾"
  | .file => "I/O 错误: "
  | .brokenOff => ""

def category : Fault → Category
  | endOfData => .endOfStream
  | readWidth .. | overwriteWidth .. | overwriteRange .. | ratioText .. | noCapacity
  | lengthSize .. | headerRoom .. | tooManySets .. | setTooLong .. | frameRate ..
  | frameDuration .. => .invalidArgument
  | channelCount .. | notH264 .. | missingExtradata | lengthSizeNotServed .. | interlaced
  | pocTypeNotServed .. | sliceGroupMapNotServed .. | refFramesNotServed .. | noTemplate .. =>
    .unsupported
  | golombTooLong | nalTooLong .. | missingNal .. | nalLength .. | emptyNal | forbiddenBit ..
  | recordTooShort .. | recordVersion .. | recordLengthCut .. | recordDataCut ..
  | recordWithoutPictureSets | shortSequenceSet | noSequenceSet | spsTooShort | spsId ..
  | chromaFormat .. | bitDepth .. | scalingDelta .. | log2MaxFrameNum .. | log2MaxPocLsb ..
  | pocCycle .. | pocType .. | refFrames .. | pictureSize .. | cropping .. | emptyPps | ppsId ..
  | sliceGroups .. | sliceGroupMap .. | defaultRefs .. | weightedBipred .. | initialQp ..
  | chromaQpOffset .. | noExtradata | unknownPps .. | unknownSps .. | slicePpsId ..
  | escapedFrameNum => .invalidData
  | notDrained .. => .invalidState
  | needMoreData => .needMoreData
  | file .. => .file
  | overflow => .brokenOff

private def hexDigit (value : Nat) : Char :=
  if value < 10 then Decimal.digit value else Char.ofNat ('A'.toNat + (value - 10))

/-- Two upper-case hexadecimal digits. -/
def hexByte (byte : UInt8) : String :=
  String.ofList [hexDigit (byte.toNat / 16), hexDigit (byte.toNat % 16)]

/-- What comes after the heading of the category. -/
def detail : Fault → String
  | endOfData | needMoreData => ""
  | readWidth width => s!"read_bits 最多 32 位, 收到 {width}"
  | golombTooLong => "Exp-Golomb 码字前导零超过 31 个"
  | overwriteWidth width => s!"replace_bits: width={width} 超过 32 位"
  | overwriteRange offset width total =>
    s!"replace_bits: 位区间 [{offset}, +{width}) 超出缓冲区 ({total} 位)"
  | ratioText text => s!"无法解析有理数: \"{text}\""
  | noCapacity => "环形缓冲区容量不能为 0"
  | channelCount channels => s!"音频电平只支持单声道和立体声, channels={channels}"
  | lengthSize size => s!"H.264: NAL 长度前缀大小非法, length_size={size}"
  | headerRoom expected actual =>
    s!"H.264: 封装头缓冲区大小不匹配, expected={expected}, actual={actual}"
  | nalTooLong length size => s!"H.264: NAL 长度 {length} 超出 {size} 字节长度前缀"
  | missingNal offset => s!"H.264: 起始码之间缺少 NAL 数据, offset={offset}"
  | nalLength length remaining => s!"H.264: NAL 长度前缀非法, len={length}, remain={remaining}"
  | emptyNal => "H.264: 空 NAL"
  | forbiddenBit header => s!"H.264: forbidden_zero_bit 置位, header=0x{hexByte header}"
  | recordTooShort length => s!"H.264: avcC 至少 7 字节, 实际 {length}"
  | recordVersion version => s!"H.264: 不支持的 avcC 版本 {version}"
  | recordLengthCut kind index => s!"H.264: avcC 第 {index} 个 {kind.label} 长度字段截断"
  | recordDataCut kind index length remaining =>
    s!"H.264: avcC 第 {index} 个 {kind.label} 数据截断, len={length}, remain={remaining}"
  | recordWithoutPictureSets => "H.264: avcC 在 numOfPictureParameterSets 之前结束"
  | shortSequenceSet => "H.264: SPS 不足 4 字节"
  | noSequenceSet => "H.264: avcC 至少需要一个 SPS"
  | tooManySets sequence picture => s!"H.264: avcC 参数集过多, sps={sequence}, pps={picture}"
  | setTooLong length => s!"H.264: 参数集超过 65535 字节, len={length}"
  | spsTooShort => "H.264: SPS RBSP 太短"
  | spsId id => s!"H.264: sps_id 超出范围, sps_id={id}"
  | chromaFormat value => s!"H.264: chroma_format_idc 非法, value={value}"
  | bitDepth luma chroma => s!"H.264: 位深非法, luma={luma}, chroma={chroma}"
  | scalingDelta value => s!"H.264: delta_scale 超出范围, value={value}"
  | log2MaxFrameNum value => s!"H.264: log2_max_frame_num_minus4 超出范围, value={value}"
  | log2MaxPocLsb value => s!"H.264: log2_max_pic_order_cnt_lsb_minus4 超出范围, value={value}"
  | pocCycle value => s!"H.264: num_ref_frames_in_pic_order_cnt_cycle 超出范围, value={value}"
  | pocType value => s!"H.264: pic_order_cnt_type 非法, value={value}"
  | refFrames value => s!"H.264: max_num_ref_frames 超出范围, value={value}"
  | pictureSize width height => s!"H.264: 图像尺寸超出范围, mbs={width}x{height}"
  | cropping width height cropX cropY =>
    s!"H.264: 裁剪参数非法, raw={width}x{height}, crop_x={cropX}, crop_y={cropY}"
  | emptyPps => "H.264: PPS RBSP 为空"
  | ppsId id => s!"H.264: pps_id 超出范围, pps_id={id}"
  | sliceGroups value => s!"H.264: num_slice_groups_minus1 超出范围, value={value}"
  | sliceGroupMap value => s!"H.264: slice_group_map_type 非法, value={value}"
  | defaultRefs list0 list1 => s!"H.264: 默认参考帧数超出范围, l0={list0}, l1={list1}"
  | weightedBipred value => s!"H.264: weighted_bipred_idc 非法, value={value}"
  | initialQp value => s!"H.264: pic_init_qp 超出范围, pic_init_qp={value}"
  | chromaQpOffset value => s!"H.264: chroma_qp_index_offset 超出范围, value={value}"
  | noExtradata => "H.264: extradata 为空"
  | unknownPps id => s!"H.264: 未找到 PPS, pps_id={id}"
  | unknownSps pps id => s!"H.264: 未找到 SPS, pps_id={pps}, sps_id={id}"
  | slicePpsId id => s!"H.264: slice header pps_id 超出范围, pps_id={id}"
  | escapedFrameNum => "H.264: slice header 前缀含 emulation prevention 字节, 无法定位 frame_num"
  | notH264 codec => s!"h264_constrate: 仅支持 H.264 视频流, 实际为 {codec}"
  | missingExtradata => "h264_constrate: 缺少 extradata (SPS/PPS)"
  | lengthSizeNotServed size => s!"h264_constrate: 不支持 {size} 字节的 NAL 长度前缀"
  | interlaced => "h264_constrate: 不支持隔行 (frame_mbs_only_flag=0)"
  | pocTypeNotServed value => s!"h264_constrate: 仅支持 poc_type=2, 实际为 {value}"
  | sliceGroupMapNotServed value => s!"h264_constrate: 不支持 slice group map type {value}"
  | refFramesNotServed value => s!"h264_constrate: 仅支持单参考帧, 实际为 {value}"
  | noTemplate size => s!"h264_constrate: CABAC 码流缺少 {size.width}x{size.height} 的跳帧模板"
  | frameRate rate => s!"h264_constrate: 无效帧率 {rate}"
  | frameDuration rate timeBase =>
    s!"h264_constrate: 帧率 {rate} 在时间基 {timeBase} 下的帧时长为 0"
  | notDrained label => s!"[{label}] 上一个数据包的输出尚未取空"
  | file .notFound => "not found"
  | file .alreadyExists => "already exists"
  | file .invalidData => "invalid data"
  | file .isDirectory => "is a directory"
  | file .notDirectory => "not a directory"
  | file .invalidInput => "invalid input"
  | file .nameTooLong => "name too long"
  | overflow => "attempt to add with overflow"

/-- The text that is shown for a fault. -/
def message (fault : Fault) : String :=
  fault.category.heading ++ fault.detail

end Fault

end Cadence
