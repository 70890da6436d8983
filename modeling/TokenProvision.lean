import TokenProvision.Certificate.Trust
import TokenProvision.Main
import TokenProvision.Proofs.Bytes
import TokenProvision.Proofs.Certificate.Authorization
import TokenProvision.Proofs.Certificate.CoinMeta
import TokenProvision.Proofs.Certificate.Grammar
import TokenProvision.Proofs.Certificate.Issuance
import TokenProvision.Proofs.Certificate.Progress
import TokenProvision.Proofs.Certificate.Reading
import TokenProvision.Proofs.Certificate.SignedPart
import TokenProvision.Proofs.Certificate.TrustedKey
import TokenProvision.Proofs.Certificate.Version
import TokenProvision.Proofs.Command
import TokenProvision.Proofs.CommandLine.Replay
import TokenProvision.Proofs.Ecdsa
import TokenProvision.Proofs.Guarded.Basic
import TokenProvision.Proofs.Guarded.Certificate
import TokenProvision.Proofs.Guarded.Encoding
import TokenProvision.Proofs.Guarded.Frame
import TokenProvision.Proofs.Guarded.Session
import TokenProvision.Proofs.Host.Delivery
import TokenProvision.Proofs.Host.Grammar
import TokenProvision.Proofs.Host.InProcess
import TokenProvision.Proofs.Host.Transcript
import TokenProvision.Proofs.Registry
import TokenProvision.Proofs.Registry.Eviction
import TokenProvision.Proofs.Registry.Rotation
import TokenProvision.Proofs.Secp256k1
import TokenProvision.Proofs.Session.Atomicity
import TokenProvision.Proofs.Session.Exchange
import TokenProvision.Proofs.Session.Frame
import TokenProvision.Proofs.Session.History
import TokenProvision.Proofs.Session.Judgement
import TokenProvision.Proofs.Session.Lines
import TokenProvision.Proofs.Session.Log
import TokenProvision.Proofs.Session.Provenance
import TokenProvision.Proofs.Session.Provisioning
import TokenProvision.Proofs.Session.SignedMessages
import TokenProvision.Proofs.Session.Step
import TokenProvision.Proofs.Session.Trust
import TokenProvision.Proofs.Text.Blank
import TokenProvision.Proofs.Text.Digits
import TokenProvision.Proofs.Tlv
import TokenProvision.Proofs.Tlv.Sequence
import TokenProvision.Session.Run
