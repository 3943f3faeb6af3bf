import FixedShape.CommandLine.Args
import FixedShape.CommandLine.Numeral
import FixedShape.CommandLine.Run
import FixedShape.Compiler.Request
import FixedShape.Compiler.ScriptedHost
import FixedShape.Compiler.Toolkit
import FixedShape.Conversion
import FixedShape.Fixing.FixError
import FixedShape.Fixing.FixInputs
import FixedShape.Fixing.FixModel
import FixedShape.Fixing.FixOutput
import FixedShape.Fixing.Log
import FixedShape.Fixing.Workspace
import FixedShape.Graph.Basic
import FixedShape.Graph.Load
import FixedShape.Graph.Node
import FixedShape.Graph.ProducerIndex
import FixedShape.Main
import FixedShape.Model.Basic
import FixedShape.Model.LoadError
import FixedShape.Model.Summary
import FixedShape.Onnx.Decode
import FixedShape.Onnx.Detect
import FixedShape.Onnx.Encode
import FixedShape.Onnx.Message
import FixedShape.Onnx.Scope
import FixedShape.Proofs.CommandLine.AnyOrder
import FixedShape.Proofs.CommandLine.Items
import FixedShape.Proofs.CommandLine.Numerals
import FixedShape.Proofs.Conversion
import FixedShape.Proofs.Evaluation
import FixedShape.Proofs.Fixing.Choosing
import FixedShape.Proofs.Fixing.Failing
import FixedShape.Proofs.Fixing.Feasibility
import FixedShape.Proofs.Fixing.Guarantees
import FixedShape.Proofs.Fixing.Hiding
import FixedShape.Proofs.Fixing.Independence
import FixedShape.Proofs.Fixing.InputLaws
import FixedShape.Proofs.Fixing.Meaning
import FixedShape.Proofs.Fixing.PaddedGraph
import FixedShape.Proofs.Fixing.PaddedValid
import FixedShape.Proofs.Fixing.Rerouting
import FixedShape.Proofs.Fixing.Running
import FixedShape.Proofs.Fixing.Saving
import FixedShape.Proofs.Fixing.StaysValid
import FixedShape.Proofs.Fixing.StructuralChange
import FixedShape.Proofs.Graph.Captures
import FixedShape.Proofs.Graph.Coherent
import FixedShape.Proofs.Graph.Consumers
import FixedShape.Proofs.Graph.FreeNames
import FixedShape.Proofs.Graph.Freshness
import FixedShape.Proofs.Graph.Loading
import FixedShape.Proofs.Graph.Names
import FixedShape.Proofs.Graph.Rewiring
import FixedShape.Proofs.Graph.Saving
import FixedShape.Proofs.Graph.Tracking
import FixedShape.Proofs.Graph.Writers
import FixedShape.Proofs.Model.Acceptance
import FixedShape.Proofs.Model.Loading
import FixedShape.Proofs.Model.Lossless
import FixedShape.Proofs.Model.Saving
import FixedShape.Proofs.Onnx.Codec
import FixedShape.Proofs.Onnx.Depth
import FixedShape.Proofs.Onnx.Failures
import FixedShape.Proofs.Onnx.GroupMarkers
import FixedShape.Proofs.Onnx.Merging
import FixedShape.Proofs.Onnx.Nesting
import FixedShape.Proofs.Onnx.Reading
import FixedShape.Proofs.Onnx.Renaming
import FixedShape.Proofs.Onnx.RoundTrip
import FixedShape.Proofs.Onnx.Scope
import FixedShape.Proofs.Onnx.Separation
import FixedShape.Proofs.Onnx.Substitution
import FixedShape.Proofs.Outcome
import FixedShape.Proofs.Storage.FileStore
import FixedShape.Proofs.Tensor.Alternatives
import FixedShape.Proofs.Tensor.Constants
import FixedShape.Proofs.Tensor.Declarations
import FixedShape.Proofs.Validity.Cycles
import FixedShape.Proofs.Validity.Exactness
import FixedShape.Proofs.Validity.ReadBack
import FixedShape.Proofs.Validity.Redeclaration
import FixedShape.Proofs.Validity.Reports
import FixedShape.Proofs.Validity.Resolution
import FixedShape.Proofs.Validity.Sorting
import FixedShape.Proofs.Validity.Walking
import FixedShape.Proofs.Validity.WellFormed
import FixedShape.Proofs.Wire.Bytes
import FixedShape.Proofs.Wire.Concatenation
import FixedShape.Proofs.Wire.Fields
import FixedShape.Proofs.Wire.Groups
import FixedShape.Proofs.Wire.Lists
import FixedShape.Proofs.Wire.Packing
import FixedShape.Proofs.Wire.Refusals
import FixedShape.Proofs.Wire.Truncation
import FixedShape.Proofs.Wire.Values
import FixedShape.Proofs.Wire.Varint
import FixedShape.Proofs.Wire.WrittenBack
import FixedShape.Storage.FilePath
import FixedShape.Storage.FileTree
import FixedShape.Storage.IoError
import FixedShape.Tensor.ElementType
import FixedShape.Tensor.Initializer
import FixedShape.Tensor.Shape
import FixedShape.Tensor.TensorInfo
import FixedShape.TensorSelector
import FixedShape.Text.CaseContext
import FixedShape.Text.CharRange
import FixedShape.Text.Lowercase
import FixedShape.Text.LowercaseTable
import FixedShape.Text.Quoted
import FixedShape.Text.Unprintable
import FixedShape.Text.Utf8Lossy
import FixedShape.Validity.Check
import FixedShape.Validity.Violation
import FixedShape.Wire.Bytes
import FixedShape.Wire.DecodeError
import FixedShape.Wire.Emit
import FixedShape.Wire.Field
import FixedShape.Wire.Reader
import FixedShape.Wire.Varint
