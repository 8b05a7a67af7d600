import Cadence.Failure
import Cadence.Filter.Create
import Cadence.Json.Record
import Cadence.Rational.Text

/-!
The configuration of the application, which is written as JSON, and what is made from it.
-/

namespace Cadence

/-- The version of the library. -/
def version : String := "0.1.0"

/-- How the application writes its log. -/
structure LogConfig where
  /-- Which events are written, as a list of filter directives. -/
  level : String := "info"
  directory : String := "logs"
  filePrefix : String := "hengsu"
  console : Bool := true
  /-- Log files that are older than this are deleted. -/
  retentionDays : Int64 := 30
  /-- Log files of earlier days are compressed. -/
  compressHistory : Bool := true
  deriving DecidableEq

/-- How a filter is set up. -/
structure FilterConfig where
  /-- The picture rate, as a fraction or a whole number. -/
  frameRate : String := "25/1"
  /-- Where the templates are. -/
  templateDir : Option String := none
  label : Option String := none
  deriving DecidableEq

structure Config where
  logging : LogConfig := {}
  filter : FilterConfig := {}
  deriving DecidableEq

open Json.Reader

def LogConfig.reader : Json.Reader LogConfig :=
  record [
    field "level" text fun c level => { c with level },
    field "directory" text fun c directory => { c with directory },
    field "file_prefix" text fun c filePrefix => { c with filePrefix },
    field "console" bool fun c console => { c with console },
    field "retention_days" int64 fun c retentionDays => { c with retentionDays },
    field "compress_history" bool fun c compressHistory => { c with compressHistory }] {}

def FilterConfig.reader : Json.Reader FilterConfig :=
  record [
    field "frame_rate" text fun c frameRate => { c with frameRate },
    field "template_dir" (optional text) fun c templateDir => { c with templateDir },
    field "label" (optional text) fun c label => { c with label }] {}

namespace Config

def reader : Json.Reader Config :=
  record [
    field "logging" LogConfig.reader fun c logging => { c with logging },
    field "constrate" FilterConfig.reader fun c filter => { c with filter }] {}

/-- Reads a configuration. -/
def ofText (text : String) : Except Failure Config :=
  match Json.read reader text with
  | .ok config => .ok config
  | .error fault => .error ⟨["解析配置失败"], some (.json fault)⟩

/-- Reads a configuration file, of which `data` are the contents if it exists. -/
def load (path : String) (data : Option Bytes) : Except Failure Config :=
  let unread (fault : FileFault) : Failure :=
    ⟨[s!"读取配置文件失败, path={path}"], some (.file fault)⟩
  match data with
  | none => .error (unread .notFound)
  | some data =>
    match String.fromUTF8? ⟨data.toArray⟩ with
    | none => .error (unread .invalidData)
    | some text => (ofText text).mapError (·.within s!"配置文件无效, path={path}")

end Config

namespace FilterConfig

/-- The picture rate. -/
def rate (config : FilterConfig) : Except Failure Rational :=
  (Rational.ofText config.frameRate).mapError
    (.ofFault s!"无效的 frame_rate: \"{config.frameRate}\"")

/-- The templates, which are looked up below `root`. -/
def templates (config : FilterConfig) (root : Directory Bytes) : Outcome Failure TemplateTable :=
  match config.templateDir with
  | none => pure []
  | some path =>
    (TemplateTable.load root path).mapError (.ofFault s!"加载跳帧模板失败, dir={path}")

/-- A filter for a stream. -/
def filter (config : FilterConfig) (info : StreamInfo) (timeBase : Rational)
    (root : Directory Bytes) : Outcome Failure Filter := do
  let frameRate ← config.rate
  let templates ← config.templates root
  let context := match config.templateDir with
    | none => "创建 h264_constrate 失败"
    | some path => s!"创建 h264_constrate 失败, 模板目录={path}"
  let filter ← (Filter.create info timeBase frameRate templates).mapError (.ofFault context)
  return match config.label with
    | none => filter
    | some label => filter.withLabel label

end FilterConfig

end Cadence
