import DecisionTables.Assoc
import DecisionTables.Cell
import DecisionTables.Computation
import DecisionTables.Context
import DecisionTables.Coordinate
import DecisionTables.Evaluation
import DecisionTables.Fault
import DecisionTables.Fields
import DecisionTables.Files
import DecisionTables.Json.Reader
import DecisionTables.Json.Writer
import DecisionTables.Loading
import DecisionTables.Main
import DecisionTables.Numeral.Binary64
import DecisionTables.Numeral.Reader
import DecisionTables.Numeral.Shortest
import DecisionTables.Path
import DecisionTables.Record
import DecisionTables.Rule
import DecisionTables.SelfTest
import DecisionTables.Session
import DecisionTables.Settings
import DecisionTables.Settings.Defect
import DecisionTables.Sheet
import DecisionTables.Sorting
import DecisionTables.Sorting.Merge
import DecisionTables.Source
import DecisionTables.State
import DecisionTables.State.Exchange
import DecisionTables.Store
import DecisionTables.Table
import DecisionTables.Tag
import DecisionTables.Text.Blank
import DecisionTables.Text.Digit
import DecisionTables.Text.Lines
import DecisionTables.Text.Printable
import DecisionTables.Text.Quoted
import DecisionTables.Text.Unit
import DecisionTables.Trace
import DecisionTables.Value
import DecisionTables.Value.Mapping
import DecisionTables.Value.Order
import DecisionTables.Walkthrough
import DecisionTables.Yaml.Cursor
import DecisionTables.Yaml.Node
import DecisionTables.Yaml.Page
import DecisionTables.Yaml.Plain
import DecisionTables.Yaml.Quoting
import DecisionTables.Yaml.Reader
import DecisionTables.Yaml.Scalar
import DecisionTables.Yaml.Token
import DecisionTables.Yaml.Writer
import DecisionTables.Proofs.Running
import DecisionTables.Proofs.Tracking
import DecisionTables.Proofs.Linking
import DecisionTables.Proofs.Pairing
import DecisionTables.Proofs.Mirroring
import DecisionTables.Proofs.Lockstep
import DecisionTables.Proofs.Lockstep.Contexts
import DecisionTables.Proofs.Lockstep.Opening
import DecisionTables.Proofs.Lockstep.Testing
import DecisionTables.Proofs.Lockstep.Computations
import DecisionTables.Proofs.Replay
import DecisionTables.Proofs.Atomicity
import DecisionTables.Proofs.Isolation
import DecisionTables.Proofs.Following
import DecisionTables.Proofs.Fronting
import DecisionTables.Proofs.Asking
import DecisionTables.Proofs.Ending
import DecisionTables.Proofs.Deciding
import DecisionTables.Proofs.Opened
import DecisionTables.Proofs.Concluding
import DecisionTables.Proofs.Recalling
import DecisionTables.Proofs.Vouching
import DecisionTables.Proofs.Recording
import DecisionTables.Proofs.Transparency
import DecisionTables.Proofs.Reads
import DecisionTables.Proofs.Meaning
import DecisionTables.Proofs.Afresh
import DecisionTables.Proofs.Circling
import DecisionTables.Proofs.Writing
import DecisionTables.Proofs.Adding
import DecisionTables.Proofs.Registering
import DecisionTables.Proofs.Carrying
import DecisionTables.Proofs.Effects
import DecisionTables.Proofs.Interleaving
import DecisionTables.Proofs.Abreast
import DecisionTables.Proofs.Reopening
import DecisionTables.Proofs.Testing
import DecisionTables.Proofs.Accepting
import DecisionTables.Proofs.Transposing
import DecisionTables.Proofs.Permuting
import DecisionTables.Proofs.Reordering
import DecisionTables.Proofs.Depending
import DecisionTables.Proofs.Confining
import DecisionTables.Proofs.Naming
import DecisionTables.Proofs.Erasing
import DecisionTables.Proofs.Resuming
import DecisionTables.Proofs.Enduring
import DecisionTables.Proofs.Reloading
import DecisionTables.Proofs.Trailing
import DecisionTables.Proofs.Outdating
import DecisionTables.Proofs.Tolerating
import DecisionTables.Proofs.Arranging
import DecisionTables.Proofs.Rounding
import DecisionTables.Proofs.Laying
import DecisionTables.Proofs.Escaping
import DecisionTables.Proofs.Parsing
import DecisionTables.Proofs.Exchanging
import DecisionTables.Proofs.Restoring
import DecisionTables.Proofs.Composing
import DecisionTables.Proofs.Transcribing
import DecisionTables.Proofs.Selecting
import DecisionTables.Proofs.Rearranging
import DecisionTables.Proofs.Coinciding
import DecisionTables.Proofs.Parting
import DecisionTables.Proofs.Complementing
import DecisionTables.Proofs.Inheriting
import DecisionTables.Proofs.Assessing
import DecisionTables.Proofs.Tallying
import DecisionTables.Proofs.Accounting
import DecisionTables.Proofs.Labelling
import DecisionTables.Proofs.Tracing
import DecisionTables.Proofs.Duplicating
import DecisionTables.Proofs.Requesting
import DecisionTables.Proofs.Shuffling
import DecisionTables.Proofs.Quoting
import DecisionTables.Proofs.Comparing
import DecisionTables.Proofs.Configuring
import DecisionTables.Proofs.Denoting
import DecisionTables.Proofs.Addressing
import DecisionTables.Proofs.Collecting
