import RuleLang.Rules.Form
import RuleLang.Rules.Json
import RuleLang.Session.Step
import RuleLang.Proofs.Parser.Image
import RuleLang.Proofs.Parser.Budget
import RuleLang.Proofs.Printer.RoundTrip
import RuleLang.Proofs.Eval.Trace
import RuleLang.Proofs.Rules.Loosening
import RuleLang.Proofs.Eval.Capture
import RuleLang.Proofs.Eval.Renaming
import RuleLang.Proofs.Eval.CallCheck
import RuleLang.Proofs.Session.History
import RuleLang.Proofs.Token.Concatenation
import RuleLang.Proofs.Token.OpenString
import RuleLang.Proofs.Eval.Reference
import RuleLang.Proofs.Value.Equality
import RuleLang.Proofs.Builtin.Visits
import RuleLang.Proofs.Eval.Height
import RuleLang.Proofs.Eval.Strict
import RuleLang.Proofs.Builtin.Substring
import RuleLang.Proofs.Number.Integer
import RuleLang.Proofs.Value.Json
import RuleLang.Proofs.Rules.Batch
import RuleLang.Proofs.Session.Origin
import RuleLang.Proofs.Session.Known
import RuleLang.Proofs.Context
import RuleLang.Proofs.Rules.Agreement
import RuleLang.Proofs.Rules.Json
