import Ipld.Draft
import Ipld.Main
import Ipld.Proofs.Spelling
import Ipld.Proofs.Parser.Steps
import Ipld.Proofs.Parser.Completeness
import Ipld.Proofs.Parser.Soundness
import Ipld.Proofs.Parser.Language
import Ipld.Proofs.Grammar.Derivation
import Ipld.Proofs.Grammar.Reading
import Ipld.Proofs.Agreement.Lockstep
import Ipld.Proofs.Agreement.Acceptance
import Ipld.Proofs.Agreement.Lexing
import Ipld.Proofs.Agreement.Schemas
import Ipld.Proofs.Grammar.Positions
import Ipld.Proofs.Agreement.Blame
import Ipld.Proofs.Agreement.Violations
import Ipld.Proofs.Agreement.Errors
import Ipld.Proofs.Layout
import Ipld.Proofs.Token.Scanning
import Ipld.Proofs.Grammar.Ebnf
import Ipld.Proofs.Grammar.Expected
import Ipld.Proofs.Schema.Table
import Ipld.Proofs.Schema.WellFormed
import Ipld.Proofs.Schema.Source
import Ipld.Proofs.Plain.Decode
import Ipld.Proofs.Token.Refusal
import Ipld.Proofs.Agreement.Refusals
import Ipld.Proofs.Parser.Renaming
import Ipld.Proofs.Append
import Ipld.Proofs.Names
import Ipld.Proofs.Json.Reader
import Ipld.Proofs.Plain.Distinct
import Ipld.Proofs.Json.RoundTrip
import Ipld.Proofs.Yaml.Reader
import Ipld.Proofs.Yaml.Scanning
import Ipld.Proofs.Plain.Blankless
import Ipld.Proofs.Yaml.RoundTrip
import Ipld.Proofs.Text.Newline
import Ipld.Proofs.Text.Utf8
import Ipld.Proofs.Token.Returns
import Ipld.Proofs.File
import Ipld.Proofs.Agreement.Declared
import Ipld.Proofs.Lint.Settings
import Ipld.Proofs.Schema.Duplicates
import Ipld.Proofs.Schema.History
import Ipld.Proofs.Lint.Totals
import Ipld.Proofs.Fuzz.Ascii
import Ipld.Proofs.Fuzz.Operation
import Ipld.Proofs.Text.Numeral
import Ipld.Proofs.Fuzz.Corpus
import Ipld.Proofs.Fuzz.Balance
import Ipld.Proofs.Fuzz.Round
import Ipld.Proofs.Fuzz.Quiet
import Ipld.Proofs.Fuzz.Command
import Ipld.Proofs.Token.Bare
import Ipld.Proofs.Fuzz.Outline
import Ipld.Proofs.Fuzz.Valid
import Ipld.Proofs.Text.OneLine
import Ipld.Proofs.Agreement.Messages
import Ipld.Proofs.Lint.Lines
import Ipld.Proofs.Parser.Locality
import Ipld.Proofs.Parser.Bounds
import Ipld.Proofs.Token.Characters
import Ipld.Proofs.Progress
import Ipld.Proofs.Schema.Hash
