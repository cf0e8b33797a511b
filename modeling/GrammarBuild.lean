import GrammarBuild.Main
import GrammarBuild.Proofs.OutOfDate
import GrammarBuild.Proofs.Trust
import GrammarBuild.Proofs.Nesting
import GrammarBuild.Proofs.TargetDir
import GrammarBuild.Proofs.Views
import GrammarBuild.Proofs.Interleaving
import GrammarBuild.Proofs.CleanBuilds
import GrammarBuild.Proofs.FirstManifest
import GrammarBuild.Proofs.Reruns
import GrammarBuild.Proofs.Splits
import GrammarBuild.Proofs.AbsolutePaths
import GrammarBuild.Proofs.Blame
import GrammarBuild.Proofs.CacheEncoding
import GrammarBuild.Proofs.DirectoryTexts
import GrammarBuild.Proofs.Elsewhere
import GrammarBuild.Proofs.HeaderSearch
import GrammarBuild.Proofs.Headers
import GrammarBuild.Proofs.DottedNames
import GrammarBuild.Proofs.Declarations
import GrammarBuild.Proofs.Precedence
import GrammarBuild.Proofs.StoredCompilers
import GrammarBuild.Proofs.PlannedCommands
import GrammarBuild.Proofs.WrittenTexts
import GrammarBuild.Proofs.WrittenHeaders
import GrammarBuild.Proofs.WrittenFiles
import GrammarBuild.Proofs.FailedStarts
import GrammarBuild.Proofs.SettingsOnDisk
import GrammarBuild.Proofs.Filters
import GrammarBuild.Proofs.ManifestSearch
import GrammarBuild.Proofs.CompilerChoice
import GrammarBuild.Proofs.IncludedHeaders
import GrammarBuild.Proofs.DeclaredProfiles
import GrammarBuild.Proofs.IgnoredOutput
import GrammarBuild.Proofs.FedTexts
