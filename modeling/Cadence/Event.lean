import Cadence.Nal.Framing
import Cadence.Timestamp

/-!
What the library has to tell about its work, for a log. Events never influence a result.
-/

namespace Cadence

/-- The weight of an event. -/
inductive Level
  | error
  | warn
  | info
  | debug
  deriving DecidableEq, Repr

def Level.name : Level → String
  | .error => "ERROR"
  | .warn => "WARN"
  | .info => "INFO"
  | .debug => "DEBUG"

/-- Something that happened. -/
inductive Event
  /-- A packet holds more units than are looked at. -/
  | unitsLeftOut
  | parametersRead (framing : Nal.Framing) (sps pps : Nat)
  | frameNumRewritten (old new : Nat) (adjustment : UInt32)
  | filterCreated (label : String) (frameRate timeBase : Rational) (duration : Ticks)
      (framing : Nal.Framing)
  /-- A jump in time that is too long to be filled. -/
  | streamBroken (label : String) (gap : Ticks) (expected actual : Timestamp)
  | gapFound (label : String) (gap dts : Ticks) (frameNum : Nat) (adjustment : UInt32)
  | skipWritten (label : String) (dts : Ticks) (frameNum : Nat)
  /-- A refresh picture whose packet does not carry the key flag. -/
  | unmarkedRefresh (label : String)
  | filterClosed (label : String) (adjustment : UInt32)
  | templateName (path : String)
  | templateEmpty (path : String)
  | templateLoaded (size : Resolution) (length : Nat)
  deriving DecidableEq

namespace Event

def level : Event → Level
  | streamBroken .. | templateName .. | templateEmpty .. => .warn
  | filterCreated .. => .info
  | _ => .debug

private def ticks (t : Ticks) : String :=
  String.ofList (Decimal.ofInt t.toInt)

def message : Event → String
  | unitsLeftOut => "H.264: 数据包 NAL 数超过 128, 忽略剩余部分"
  | parametersRead framing sps pps =>
    s!"H.264: extradata 解析完成, framing={framing}, sps={sps}, pps={pps}"
  | frameNumRewritten old new adjustment =>
    s!"H.264: slice frame_num 改写 {old} => {new} (+{adjustment.toNat})"
  | filterCreated label frameRate timeBase duration framing =>
    s!"[{label}] 创建: 帧率 {frameRate}, 时间基 {timeBase}, 帧时长 {ticks duration}, 封装 {framing}"
  | streamBroken label gap expected actual =>
    s!"[{label}] 时间戳跳变 {ticks gap} 帧 ({expected} -> {actual}), 视为流中断, 不插入跳帧"
  | gapFound label gap dts frameNum adjustment =>
    s!"[{label}] 缺失 {ticks gap} 帧, 从 dts={ticks dts} frame_num={frameNum} 开始插入跳帧, " ++
      s!"后移量 {adjustment.toNat}"
  | skipWritten label dts frameNum => s!"[{label}] 输出跳帧 dts={ticks dts} frame_num={frameNum}"
  | unmarkedRefresh label => s!"[{label}] 未标记关键帧的 IDR, 结束 frame_num 改写"
  | filterClosed label adjustment => s!"[{label}] 释放, 剩余后移量 {adjustment.toNat}"
  | templateName path => s!"跳帧模板文件名无法识别, 已跳过: {path}"
  | templateEmpty path => s!"跳帧模板为空, 已跳过: {path}"
  | templateLoaded size length => s!"加载跳帧模板 {size.width}x{size.height}, {length} 字节"

end Event

end Cadence
