import FusedKernel.Console.Line
import FusedKernel.Kernel.Loop
import FusedKernel.Kernel.Reading
import FusedKernel.Proofs.Assembly.Collisions
import FusedKernel.Proofs.Console.Decoding
import FusedKernel.Proofs.Console.Described
import FusedKernel.Proofs.FencedBuffer.Writes
import FusedKernel.Proofs.Kernel.Acceptance
import FusedKernel.Proofs.Kernel.Footprint
import FusedKernel.Proofs.Kernel.Independence
import FusedKernel.Proofs.Kernel.Iterations
import FusedKernel.Proofs.Kernel.Postorder
import FusedKernel.Proofs.Kernel.Text
import FusedKernel.Proofs.Kernel.WellFormed
import FusedKernel.Proofs.Kernel.Widths
import FusedKernel.Proofs.Operator.Arithmetic
import FusedKernel.Proofs.Operator.Reading
import FusedKernel.Proofs.Sampling.Calls
import FusedKernel.Proofs.Sampling.Divisors
import FusedKernel.Proofs.Settings.RoundTrip
import FusedKernel.Proofs.Workbench.Diagnostics
import FusedKernel.Proofs.Workbench.Failures
import FusedKernel.Proofs.Workbench.Isolation
import FusedKernel.Proofs.Workbench.Log
import FusedKernel.Proofs.Workbench.Provenance
import FusedKernel.Proofs.Workbench.Stems
import FusedKernel.Sampling.Vectors
import FusedKernel.Settings.File
import FusedKernel.Workbench.Basic
