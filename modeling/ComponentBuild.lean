import ComponentBuild.Main
import ComponentBuild.Proofs.Compile.FinalMap
import ComponentBuild.Proofs.Compile.ReactiveMap
import ComponentBuild.Proofs.Document.Found
import ComponentBuild.Proofs.Document.Shift
import ComponentBuild.Proofs.Document.Expression
import ComponentBuild.Proofs.Document.ExpressionTag
import ComponentBuild.Proofs.Script.Restore
import ComponentBuild.Proofs.Position.History
import ComponentBuild.Proofs.Script.Analyzer
import ComponentBuild.Proofs.Script.Globals
import ComponentBuild.Proofs.Script.Rewritten
import ComponentBuild.Proofs.Script.StageMap
import ComponentBuild.Proofs.Script.Injected
import ComponentBuild.Proofs.Compile.Protocol
import ComponentBuild.Proofs.Host.Turns
import ComponentBuild.Proofs.Build.Confluence
import ComponentBuild.Proofs.Build.Discover
import ComponentBuild.Proofs.Build.Rebuild
import ComponentBuild.Proofs.Build.History
import ComponentBuild.Proofs.Compile.Replaced
import ComponentBuild.Proofs.Compile.SectionMap
import ComponentBuild.Proofs.Splice.Replaced
import ComponentBuild.Proofs.Compile.Reported
import ComponentBuild.Proofs.Compile.ToldAttributes
import ComponentBuild.Proofs.Host.RequestLine
import ComponentBuild.Proofs.Report.Label
import ComponentBuild.Proofs.Document.Unquoted
import ComponentBuild.Proofs.Build.Watch
import ComponentBuild.Proofs.Compile.ToldName
import ComponentBuild.Proofs.Compile.Lifted
import ComponentBuild.Proofs.Tag.Tiling
import ComponentBuild.Proofs.Files.NormalForm
