import Cadence.Config
import Cadence.Log.Daily
import Cadence.Log.Directive

/-!
Setting up the log of the application.
-/

namespace Cadence.Log

/-- What became of an attempt to set up the log: the files afterwards, and why it failed. -/
structure Setup where
  root : Directory Bytes
  failure : Option Failure

/-- Sets up the log in its directory below `root`. A process has one log only; `installed` says that
it has it already. -/
def setUp (config : LogConfig) (root : Directory Bytes) (today : String) (installed : Bool) : Setup :=
  let base := config.directory
  let failed (text : String) (cause : Option Cause) : Option Failure := some ⟨[text], cause⟩
  match root.create base with
  | .error fault => ⟨root, failed s!"创建日志目录失败, path={base}" (some (.file fault))⟩
  | .ok root =>
    match Daily.start root base config.filePrefix today with
    | .error fault =>
      let path := filePath base config.filePrefix today
      ⟨root, failed s!"打开日志文件失败, path={path}" (some (.file fault))⟩
    | .ok log =>
      if !acceptsDirectives config.level then
        ⟨log.root, failed s!"无效的日志级别: \"{config.level}\"" none⟩
      else if installed then ⟨log.root, failed "全局日志已初始化" none⟩
      else ⟨log.root, none⟩

end Cadence.Log
