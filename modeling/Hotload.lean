import Hotload.Error.Json
import Hotload.Heap.Json
import Hotload.Main
import Hotload.ModuleTable
import Hotload.Options.Json
import Hotload.Syntax.Json
import Hotload.Proofs.Cache.DirectoryStore
import Hotload.Proofs.Cache.Modes
import Hotload.Proofs.Cache.Transparency
import Hotload.Proofs.CodeFrame
import Hotload.Proofs.Compiler
import Hotload.Proofs.Evaluation.Assignment
import Hotload.Proofs.Evaluation.Rereading
import Hotload.Proofs.Evaluation.Settling
import Hotload.Proofs.Loader.Surfacing
import Hotload.Proofs.Module.Frames
import Hotload.Proofs.Module.FreshLoads
import Hotload.Proofs.Module.Generations
import Hotload.Proofs.Module.Imports
import Hotload.Proofs.Module.Packages
import Hotload.Proofs.Module.Resolution
import Hotload.Proofs.Module.Retirement
import Hotload.Proofs.Module.Roots
import Hotload.Proofs.Module.Termination
import Hotload.Proofs.Module.WatchSet
import Hotload.Proofs.Reload.Interleaving
import Hotload.Proofs.SourceMap.Exactness
import Hotload.Proofs.SourceMap.Scanning
import Hotload.Proofs.Syntax.Dialects
import Hotload.Proofs.Syntax.Erasure
import Hotload.Proofs.Syntax.Height
import Hotload.Proofs.Syntax.Parentheses
import Hotload.Proofs.Syntax.Variables
import Hotload.Proofs.Syntax.Temporaries
import Hotload.Proofs.Text.Splitting
