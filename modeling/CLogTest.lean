import CLogTest.Ackermann.StackMachine
import CLogTest.Ackermann.WrapAround
import CLogTest.Agreement
import CLogTest.CLogger
import CLogTest.CLogger.Rotation
import CLogTest.LogC
import CLogTest.Slog
import CLogTest.ZfLog
import CLogTest.ZfLog.TimeCache
import CLogTest.Zlog.Environment
import CLogTest.Zlog.Format
import CLogTest.Zlog.Hashtable
import CLogTest.Zlog.Level
import CLogTest.Zlog.Program
import CLogTest.Zlog.Rotation
