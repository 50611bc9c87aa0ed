import Graft.Main
import Graft.Project.Routine
import Graft.Tree.Walk
import Graft.Proofs.Edit.Frame
import Graft.Proofs.Edit.Twice
import Graft.Proofs.Edit.Settled
import Graft.Proofs.Edit.FirstClass
import Graft.Proofs.Edit.Import
import Graft.Proofs.Edit.Members
import Graft.Proofs.Edit.Commute
import Graft.Proofs.Edit.Undo
import Graft.Proofs.Edit.Absent
import Graft.Proofs.Edit.Revision
import Graft.Proofs.Edit.UnitClass
import Graft.Proofs.Edit.Saving
import Graft.Proofs.Edit.AddMethod
import Graft.Proofs.Edit.Path
import Graft.Proofs.Edit.ArrayFrame
import Graft.Proofs.Reading.Cover
import Graft.Proofs.Reading.Balance
import Graft.Proofs.Reading.Trivia
import Graft.Proofs.Reading.Lossless
import Graft.Proofs.Reading.Session
import Graft.Proofs.Reading.Listing
import Graft.Proofs.Edit.Requirement
import Graft.Proofs.Edit.Provenance
import Graft.Proofs.Print.Lines
import Graft.Proofs.Reading.Whole
import Graft.Proofs.Reading.Group
import Graft.Proofs.Reading.Cursor
import Graft.Proofs.Token.LongestMatch
import Graft.Proofs.Reading.Snippet
import Graft.Proofs.Literal.Interpolation
import Graft.Proofs.Tree.Walk
import Graft.Proofs.Project.Publish
import Graft.Proofs.Project.Lines
import Graft.Proofs.CommandLine.Php
import Graft.Proofs.Edit.Splices
import Graft.Proofs.Print.Tidy
import Graft.Proofs.Print.Separators
