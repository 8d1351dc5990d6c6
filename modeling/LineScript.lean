import LineScript.Main
import LineScript.Proofs.ErrorPlace
import LineScript.Proofs.Halting
import LineScript.Proofs.Arguments
import LineScript.Proofs.Statements
import LineScript.Proofs.Confinement
import LineScript.Proofs.Appends
import LineScript.Proofs.Runs
import LineScript.Proofs.Bounds
import LineScript.Proofs.Units
import LineScript.Proofs.Quoting
import LineScript.Proofs.Performs
import LineScript.Proofs.Loops
import LineScript.Proofs.Scoping
import LineScript.Proofs.Messages
import LineScript.Proofs.Tracing
import LineScript.Proofs.Printing
import LineScript.Proofs.Events
import LineScript.Proofs.Drivers
import LineScript.Proofs.Orderly
import LineScript.Proofs.Escapes
import LineScript.Proofs.Rounds
import LineScript.Proofs.Agreement
import LineScript.Proofs.Grammar
import LineScript.Proofs.StringEnd
import LineScript.Proofs.Templates
import LineScript.Proofs.GivenBack
import LineScript.Proofs.Indifferent
import LineScript.Proofs.Registries
import LineScript.Proofs.Onward
