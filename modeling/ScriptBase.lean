import ScriptBase.ClassName.Naming
import ScriptBase.Console
import ScriptBase.Dict.Shelf
import ScriptBase.Main
import ScriptBase.Session.Run
import ScriptBase.Proofs.Writer.Calls
import ScriptBase.Proofs.Writer.Ledger
import ScriptBase.Proofs.Writer.Delivery
import ScriptBase.Proofs.Reader.Calls
import ScriptBase.Proofs.Reader.Failure
import ScriptBase.Proofs.Disk.Creation
import ScriptBase.Proofs.Disk.Opening
import ScriptBase.Proofs.Reader.Lines
import ScriptBase.Proofs.Reader.Remaining
import ScriptBase.Proofs.Writer.Healthy
import ScriptBase.Proofs.Writer.Filing
import ScriptBase.Proofs.RoundTrip
import ScriptBase.Proofs.Reader.Pieces
import ScriptBase.Proofs.Reader.Sharing
import ScriptBase.Proofs.Writer.Unfailing
import ScriptBase.Proofs.Lifecycle
import ScriptBase.Proofs.Numeral.Spelling
import ScriptBase.Proofs.Scope.Faults
import ScriptBase.Proofs.Scope.Writers
import ScriptBase.Proofs.Template.Spelling
import ScriptBase.Proofs.Text.Literals
import ScriptBase.Proofs.Value.Delimiting
import ScriptBase.Proofs.Text.Encoding
import ScriptBase.Proofs.Spans
import ScriptBase.Proofs.Dict.Contents
import ScriptBase.Proofs.Dict.Merging
import ScriptBase.Proofs.Dict.Shelves
import ScriptBase.Proofs.Tracing.Silence
import ScriptBase.Proofs.Tracing.Runs
import ScriptBase.Proofs.ClassName.Answers
import ScriptBase.Proofs.Writer.Sharing
import ScriptBase.Proofs.Disk.Handles
import ScriptBase.Proofs.Floating.Quotients
import ScriptBase.Proofs.Floating.Rounding
import ScriptBase.Proofs.Floating.Scientific
import ScriptBase.Proofs.Numeral.Decimals
import ScriptBase.Proofs.Floating.Numerals
import ScriptBase.Proofs.Floating.ReadingBack
import ScriptBase.Proofs.Floating.Shortness
import ScriptBase.Proofs.Printing
import ScriptBase.Proofs.Numeral.Limits
import ScriptBase.Proofs.Reader.Questions
import ScriptBase.Proofs.Value.Parts
import ScriptBase.Proofs.Platform.Reference
import ScriptBase.Proofs.Text.Characters
import ScriptBase.Proofs.Text.Appending
import ScriptBase.Proofs.Text.Stripping
import ScriptBase.Proofs.Text.Finding
import ScriptBase.Proofs.Template.Acceptance
import ScriptBase.Proofs.Template.Precision
import ScriptBase.Proofs.Numeral.Digits
import ScriptBase.Proofs.Numeral.Stripped
import ScriptBase.Proofs.Template.Cutting
import ScriptBase.Proofs.Template.Padding
import ScriptBase.Proofs.Template.Integers
import ScriptBase.Proofs.Template.Places
import ScriptBase.Proofs.LineStat.Scanning
import ScriptBase.Proofs.LineStat.Reference
import ScriptBase.Proofs.LineStat.Room
import ScriptBase.Proofs.Value.Optionals
