import Middle.Lib.Passes
import Middle.NormalDdl.DefaultValueMacro
import Middle.NormalDdl.MacroArgsGrammar
import Middle.NormalDdl.MacroPass
import Middle.NormalDdl.MacroFaults
import Middle.NormalDdl.MacroCalls
import Middle.NormalDdl.MaskedLiterals
import Middle.Lib.Splices
import Middle.NormalDdl.MacroSplices
import Middle.MiddleApp.StaticPrefs
import Middle.NormalDdl.ExpanderHistory
import Middle.MiddleApp.PrefsReader
import Middle.NormalDdl.MacroTermination
import Middle.NormalDdl.MacroValidation
import Middle.MiddleApp.PrefsCursor
import Middle.MiddleApp.PrefsFaults
import Middle.NormalDdl.DroppedText
import Middle.NormalDdl.EscapedDollars
import Middle.MiddleApp.ValidatedRewrites
import Middle.Lib.Lines
import Middle.Lib.StrictWeakOrder
import Middle.NormalDdl.MigrationMsg
import Middle.NormalDdl.PrecisionScale
import Middle.NormalDdl.StoredSizes
import Middle.NormalDdl.ScaleLoop
import Middle.NormalDdl.AcceptedColumns
import Middle.NormalDdl.WrittenSizes
import Middle.NormalDdl.CharLengths
import Middle.NormalDdl.BalancedDefaults
import Middle.NormalDdl.CreateTable
import Middle.NormalDdl.CheckClauses
import Middle.NormalDdl.ParsedNames
import Middle.SqlsvrDdl.HideRejected
import Middle.SqlsvrDdl.Keys
import Middle.SqlsvrDdl.RejectedColumns
import Middle.SqlsvrDdl.Validation
import Middle.SqlsvrDdl.FactoryRun
import Middle.SqlsvrDdl.RejectedMsgs
import Middle.SqlsvrDdl.FkTargets
import Middle.SqlsvrDdl.WrittenConstraints
import Middle.SqlsvrDdl.CreatedTables
import Middle.SqlsvrDdl.IterationOrder
import Middle.SqlsvrDdl.EmptiedTables
import Middle.SqlsvrDdl.IdentityColumns
import Middle.SqlsvrDdl.UqConstraintNames
import Middle.SqlsvrDdl.TcMapper
import Middle.SqlsvrDdl.ForeignKeys
import Middle.MiddleApp.MassMigrator
import Middle.MiddleApp.TargetPaths
import Middle.MiddleApp.TargetLines
import Middle.MiddleApp.DatatypeRuleTrees
import Middle.MiddleApp.PkvsidRuns
import Middle.SqlsvrDdl.ConstraintMappers
import Middle.SqlsvrDdl.QueriesImpl
import Middle.NormalDdl.Usedcols
import Middle.MiddleApp.NamesReader
import Middle.MiddleApp.BatchMigrator
import Middle.MiddleApp.BatchRuns
import Middle.MiddleApp.PrefsTrees
import Middle.Lib.SideBySide
import Middle.SqlsvrDdl.NarrowedRuns
import Middle.MiddleApp.NarrowedTargets
import Middle.SqlsvrDdl.AcceptedTables
import Middle.MiddleApp.MigratedTargets
import Middle.Main.Options
import Middle.Main.Runner
