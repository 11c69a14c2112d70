import SysYTools.Editor.Session
import SysYTools.Main
import SysYTools.Proofs.Command
import SysYTools.Proofs.CommandLine.FixArrays
import SysYTools.Proofs.Diagnostic.Agreement
import SysYTools.Proofs.Diagnostic.Render
import SysYTools.Proofs.Editor.Lookup
import SysYTools.Proofs.Extract
import SysYTools.Proofs.Fix.Calls
import SysYTools.Proofs.Fix.GlobalVariable
import SysYTools.Proofs.Fix.Removal
import SysYTools.Proofs.Fix.Table
import SysYTools.Proofs.Repair.Arrays
import SysYTools.Proofs.Repair.Resizing
import SysYTools.Proofs.Respacing
import SysYTools.Proofs.Token.Numerals
import SysYTools.Proofs.Tree.Printing
import SysYTools.Proofs.Tree.Recovery
