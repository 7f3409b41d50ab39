import Redcli.Buffers.Ownership
import Redcli.Buffers.PreferredSize
import Redcli.Buffers.SteadyState
import Redcli.Codec.BurstDetection
import Redcli.Codec.CompressionRatio
import Redcli.Codec.ResultChannel
import Redcli.Config.Comments
import Redcli.Config.MalformedText
import Redcli.Config.OptionLayers
import Redcli.Config.StoredConfig
import Redcli.Config.StringValues
import Redcli.Pipeline.CheckStrength
import Redcli.Pipeline.ConsoleReport
import Redcli.Pipeline.Coverage
import Redcli.Pipeline.CsvReport
import Redcli.Pipeline.DocumentedLibraries
import Redcli.Pipeline.ExactlyOnce
import Redcli.Pipeline.Folder
import Redcli.Pipeline.FormatLists
import Redcli.Pipeline.GridReport
import Redcli.Pipeline.SideBySide
import Redcli.Pipeline.GeometrySafety
import Redcli.Pipeline.Independence
import Redcli.Pipeline.Levels
import Redcli.Pipeline.LogAccounts
import Redcli.Pipeline.Switches
import Redcli.Program.ReportFile
import Redcli.Program.Session
import Redcli.Program.Specification
