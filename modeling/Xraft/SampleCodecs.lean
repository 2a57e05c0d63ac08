import Mathlib.Logic.Equiv.List
import Mathlib.Logic.Function.Iterate
import Xraft.ClusterConfiguration
import Xraft.WriteAheadLog

/-! # Codecs for concrete stores

`CRC-32` as `crc32fast` computes it, and an encoding that renders chosen values in their real form
and every other value as a run of one mark, so that nothing but the chosen values has to be parsed.
-/
namespace SampleCodecs

open ProtocolTypes ClusterConfiguration ByteFrames WriteAheadLog
open WriteAheadLog.FileLogStore (asBytes)

/-! ## Checksums -/

def crcBit (c : ℕ) : ℕ := (c / 2) ^^^ (0xEDB88320 * (c % 2))

def crcByte (c : ℕ) (b : UInt8) : ℕ := Nat.iterate crcBit 8 (c ^^^ b.toNat)

def crcUpdate (c : ℕ) (bytes : Bytes) : ℕ := bytes.foldl crcByte c

def crcFinalize (c : ℕ) : UInt32 := UInt32.ofNat (c ^^^ 0xFFFFFFFF)

def crc32 (bytes : Bytes) : UInt32 := crcFinalize (crcUpdate 0xFFFFFFFF bytes)

theorem crcUpdate_flatten (parts : List Bytes) (c : ℕ) :
    parts.foldl crcUpdate c = crcUpdate c parts.flatten :=
  List.foldl_flatten.symm

/-- The check value of the algorithm. -/
example : crc32 (asBytes "123456789".toList) = 0xCBF43926 := by decide +kernel

/-! ## Sampled encodings -/

section Samples

variable {α β : Type} [DecidableEq α] [DecidableEq β] [Encodable α]

def encodeSample (render : α → List β) (samples : List α) (mark : β) (a : α) : List β :=
  if a ∈ samples then render a else List.replicate (Encodable.encode a + 1) mark

def decodeSample (render : α → List β) (samples : List α) (text : List β) : Option α :=
  (samples.find? (fun a => render a = text)).or (Encodable.decode (text.length - 1))

theorem decode_encodeSample {render : α → List β} {samples : List α} {mark : β}
    (hinjective : ∀ a ∈ samples, ∀ b ∈ samples, render b = render a → b = a)
    (hmark : ∀ a ∈ samples, (render a).head? ≠ some mark) (a : α) :
    decodeSample render samples (encodeSample render samples mark a) = some a := by
  unfold encodeSample decodeSample
  split_ifs with ha
  · cases hfind : samples.find? (fun b => render b = render a) with
    | none => exact absurd (List.find?_eq_none.mp hfind a ha) (by simp)
    | some b =>
      have hrender : render b = render a := by simpa using List.find?_some hfind
      rw [hinjective a ha b (List.mem_of_find?_eq_some hfind) hrender]
      rfl
  · have hfind : samples.find? (fun b =>
        render b = List.replicate (Encodable.encode a + 1) mark) = none := by
      rw [List.find?_eq_none]
      intro b hb hrender
      refine hmark b hb ?_
      rw [of_decide_eq_true hrender, List.replicate_succ, List.head?_cons]
    rw [hfind, List.length_replicate]
    simp

end Samples

/-! ## Voter sets -/

instance : Encodable Endpoint :=
  Encodable.ofLeftInverse (fun e => (e.host.toList.map Char.toNat, e.port))
    (fun p => ⟨String.ofList (p.1.map Char.ofNat), p.2⟩)
    (fun e => by simp [List.map_map, Function.comp_def, Char.ofNat_toNat])

instance : Encodable VoterRecord :=
  Encodable.ofLeftInverse (fun v => (v.nodeId, v.directoryId, v.endpoints))
    (fun p => ⟨p.1, p.2.1, p.2.2⟩) (fun _ => rfl)

instance : Encodable VoterSet :=
  Encodable.ofLeftInverse VoterSet.voters VoterSet.ofRecords
    (fun _ => VoterSet.eq_of_voters rfl)

def bincodeList {α : Type} (encode : α → Bytes) (items : List α) : Bytes :=
  leBytes 8 items.length ++ items.flatMap encode

def bincodeEndpoint (e : Endpoint) : Bytes :=
  bincodeList (fun b => [b]) (asBytes e.host.toList) ++ leBytes 2 e.port

/-- A UUID is written as its sixteen bytes, most significant first. -/
def bincodeRecord (v : VoterRecord) : Bytes :=
  leBytes 8 v.nodeId ++ bincodeList (fun b => [b]) (leBytes 16 v.directoryId).reverse ++
    bincodeList bincodeEndpoint v.endpoints

def bincodeVoters (vs : VoterSet) : Bytes := bincodeList bincodeRecord vs.voters

def soloVoters : VoterSet := .ofRecords (sampleRecords.take 1)

def sampleCodec : WalCodec where
  crc32 := crc32
  encodeVoters := encodeSample bincodeVoters [soloVoters] 0
  decodeVoters bytes :=
    match decodeSample bincodeVoters [soloVoters] bytes with
    | some vs => .ok vs
    | none => .error "io error: unexpected end of file"
  voters_roundTrip vs := by
    rw [decode_encodeSample]
    · simp
    · simp only [List.mem_singleton, forall_eq]
      decide +kernel

theorem encodeVoters_ne_nil (vs : VoterSet) : sampleCodec.encodeVoters vs ≠ [] := by
  simp only [sampleCodec, encodeSample]
  split_ifs
  · intro h
    have hlength := congrArg List.length h
    simp [bincodeVoters, bincodeList, leBytes] at hlength
  · exact List.cons_ne_nil _ _

end SampleCodecs
