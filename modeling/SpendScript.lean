import SpendScript.Bytes
import SpendScript.Number
import SpendScript.Rules
import SpendScript.Hash
import SpendScript.Curve.Verify
import SpendScript.Signature
import SpendScript.Opcode
import SpendScript.Script.Error
import SpendScript.Script.Basic
import SpendScript.Digest
import SpendScript.Taproot.Tree
import SpendScript.Dialogue
import SpendScript.Machine.Eval
import SpendScript.Verify
import SpendScript.Script.Template
import SpendScript.Script.Branch
import SpendScript.Proofs.Dialogue
import SpendScript.Proofs.Trace
import SpendScript.Proofs.Spend
import SpendScript.Proofs.Relaxation
import SpendScript.Proofs.Reading
import SpendScript.Proofs.Component
import SpendScript.Proofs.Authored
import SpendScript.Proofs.SigOps
import SpendScript.Proofs.Branch
import SpendScript.Proofs.Limits
import SpendScript.Proofs.Wire
import SpendScript.Proofs.LegacyDigest
import SpendScript.Proofs.TaprootDigest
import SpendScript.Proofs.WitnessDigest
import SpendScript.Proofs.Cache
import SpendScript.Proofs.Isolation
import SpendScript.Proofs.Attribution
import SpendScript.Proofs.SpentOutputs
import SpendScript.Proofs.TaprootTree
import SpendScript.Proofs.Budget
import SpendScript.Proofs.Recognition
import SpendScript.Proofs.Malleability
import SpendScript.Proofs.MultiSig
import SpendScript.Proofs.MinimalPush
import SpendScript.Proofs.ScriptHash
import SpendScript.Proofs.TreeShape
import SpendScript.Proofs.Number
import SpendScript.Proofs.Der
import SpendScript.Proofs.Deletion
import SpendScript.Proofs.ScriptCode
import SpendScript.Proofs.Arithmetic
import SpendScript.Proofs.OpSuccess
import SpendScript.Proofs.StraightLine
import SpendScript.Proofs.UntakenBranch
import SpendScript.Proofs.Paths
import SpendScript.Proofs.NullFail
import SpendScript.Proofs.LockTime
import SpendScript.Proofs.SignatureCount
import SpendScript.Proofs.KeyHash
import SpendScript.Proofs.ControlBlock
import SpendScript.Proofs.StackEffect
import SpendScript.Proofs.Cursor
import SpendScript.Proofs.Outputs
