import Crabapple.Util.Tlv
import Crabapple.Rust.HashMap

/-!
# Key bags

* `KeyRing`, `ClassKeyData`, `EncryptionKey`, `ProtectionClassKey` : the data of `keyring.rs`;
* `Parser`, `Parser.step` : the loop of `KeyRing::from_bytes` over the TLV blocks, the pending class
  record being `current`;
* `KeyRing.fromBytes` : the whole parse.
-/

namespace Crabapple

open Rust

namespace Tag

def type : Tag := #v[0x54, 0x59, 0x50, 0x45]
def uuid : Tag := #v[0x55, 0x55, 0x49, 0x44]
def wrap : Tag := #v[0x57, 0x52, 0x41, 0x50]
def dpsl : Tag := #v[0x44, 0x50, 0x53, 0x4C]
def salt : Tag := #v[0x53, 0x41, 0x4C, 0x54]
def dpic : Tag := #v[0x44, 0x50, 0x49, 0x43]
def iter : Tag := #v[0x49, 0x54, 0x45, 0x52]
def clas : Tag := #v[0x43, 0x4C, 0x41, 0x53]
def wpky : Tag := #v[0x57, 0x50, 0x4B, 0x59]
def pbky : Tag := #v[0x50, 0x42, 0x4B, 0x59]
def ktyp : Tag := #v[0x4B, 0x54, 0x59, 0x50]

/-- The tags that a pending class record takes. -/
def ofRecord : List Tag := [clas, wpky, pbky, ktyp, wrap]

end Tag

/-- An `AES` key, `EncryptionKey(Vec<u8>)`. -/
structure EncryptionKey where
  bytes : Bytes
  deriving DecidableEq, Repr

/-- The decrypted key of a protection class. -/
structure ProtectionClassKey where
  classId : UInt32
  key : EncryptionKey
  deriving DecidableEq, Repr

/-- The wrapped key of a protection class. -/
structure ClassKeyData where
  wpky : Option Bytes
  wrap : Option Bytes
  uuid : Option Bytes
  deriving DecidableEq, Repr

/-- `ClassKeyData::from_map`: `WPKY` is preferred to `PBKY`. -/
def ClassKeyData.fromMap (map : HashMap Tag Bytes) : ClassKeyData where
  wpky := (map.lookup Tag.wpky).or (map.lookup Tag.pbky)
  wrap := map.lookup Tag.wrap
  uuid := map.lookup Tag.uuid

/-- The key bag of `Manifest.plist`. -/
structure KeyRing where
  bagType : UInt32
  uuid : Bytes
  wrap : Bytes
  dpsl : Bytes
  dpic : UInt32
  salt : Bytes
  iter : UInt32
  attrs : HashMap Tag Bytes
  classKeys : HashMap UInt32 ClassKeyData

namespace KeyRing

/-- The bag that `from_bytes` starts from. -/
def empty : KeyRing where
  bagType := 0
  uuid := []
  wrap := []
  dpsl := []
  dpic := 0
  salt := []
  iter := 0
  attrs := ∅
  classKeys := ∅

/-- Store a finished record; a record without `CLAS` panics on the index. -/
def flush (bag : KeyRing) (cur : HashMap Tag Bytes) : Result KeyRing := do
  let clas ← .unwrap (cur.lookup Tag.clas)
  let classId ← .okOr (u32OfBe? clas) .conversionFailed
  .ok { bag with classKeys := bag.classKeys.insert classId (ClassKeyData.fromMap cur) }

/-- Store the pending record, if there is one. -/
def flushPending (bag : KeyRing) (current : Option (HashMap Tag Bytes)) : Result KeyRing :=
  match current with
  | some cur => bag.flush cur
  | none => .ok bag

/-- The state of the loop over the blocks. -/
structure Parser where
  bag : KeyRing
  current : Option (HashMap Tag Bytes)

/-- The `match` on the tag. -/
def Parser.dispatch (s : Parser) (tag : Tag) (data : Bytes) : Result Parser :=
  if tag = Tag.uuid ∧ s.bag.uuid = [] then .ok { s with bag := { s.bag with uuid := data } }
  else if tag = Tag.wrap ∧ s.bag.wrap = [] then .ok { s with bag := { s.bag with wrap := data } }
  else if tag = Tag.dpsl ∧ s.bag.dpsl = [] then .ok { s with bag := { s.bag with dpsl := data } }
  else if tag = Tag.salt ∧ s.bag.salt = [] then .ok { s with bag := { s.bag with salt := data } }
  else if tag = Tag.dpic ∧ s.bag.dpic = 0 then do
    let v ← .okOr (u32OfBe? data) .conversionFailed
    .ok { s with bag := { s.bag with dpic := v } }
  else if tag = Tag.iter ∧ s.bag.iter = 0 then do
    let v ← .okOr (u32OfBe? data) .conversionFailed
    .ok { s with bag := { s.bag with iter := v } }
  else if tag = Tag.uuid then do
    -- a new class record starts
    let bag ← s.bag.flushPending s.current
    .ok { bag, current := some ((∅ : HashMap Tag Bytes).insert tag data) }
  else
    match s.current with
    | some cur =>
      if tag ∈ Tag.ofRecord then .ok { s with current := some (cur.insert tag data) }
      else .ok { s with bag := { s.bag with attrs := s.bag.attrs.insert tag data } }
    | none => .ok { s with bag := { s.bag with attrs := s.bag.attrs.insert tag data } }

/-- One round of the loop: a four-byte `TYPE` never reaches the `match`. -/
def Parser.step (s : Parser) (tag : Tag) (data : Bytes) : Result Parser :=
  if data.length = 4 then do
    let v ← .okOr (u32OfBe? data) .conversionFailed
    if tag = Tag.type then .ok { s with bag := { s.bag with bagType := v } }
    else s.dispatch tag data
  else s.dispatch tag data

/-- The loop over the items of the iterator. -/
def parse (items : List (Result (Tag × Bytes))) (s : Parser) : Result Parser :=
  items.foldlM (fun s item => do
    let (tag, data) ← item
    s.step tag data) s

/-- `KeyRing::from_bytes`. -/
def fromBytes (blob : Bytes) : Result KeyRing := do
  let s ← parse (tlvBlocks blob) ⟨empty, none⟩
  s.bag.flushPending s.current

/-! ## Encoded key bags -/

/-- The loop over blocks that the iterator yields. -/
def parseBlocks (bs : List Tlv.Block) (s : Parser) : Result Parser :=
  bs.foldlM (fun s b => s.step b.tag b.value) s

theorem fromBytes_encode (bs : List Tlv.Block) : fromBytes (Tlv.encode bs) =
    (parseBlocks bs ⟨empty, none⟩ >>= fun s => s.bag.flushPending s.current) := by
  have hnil : ([] : Bytes).length < 8 := by decide
  have := tlvBlocks_encode bs hnil
  rw [List.append_nil] at this
  rw [fromBytes, this, parse, List.foldlM_map]
  rfl

theorem parseBlocks_append (bs cs : List Tlv.Block) (s : Parser) :
    parseBlocks (bs ++ cs) s = parseBlocks bs s >>= parseBlocks cs := List.foldlM_append

@[simp] theorem parseBlocks_nil (s : Parser) : parseBlocks [] s = .ok s := rfl

@[simp] theorem parseBlocks_cons (b : Tlv.Block) (bs : List Tlv.Block) (s : Parser) :
    parseBlocks (b :: bs) s = s.step b.tag b.value >>= parseBlocks bs := List.foldlM_cons

theorem parseBlocks_middle {bs cs : List Tlv.Block} {b : Tlv.Block} {s s' : Parser}
    (h : parseBlocks (bs ++ b :: cs) s = .ok s') : ∃ s₀ s₁, parseBlocks bs s = .ok s₀ ∧
      s₀.step b.tag b.value = .ok s₁ ∧ parseBlocks cs s₁ = .ok s' := by
  rw [parseBlocks_append] at h
  obtain ⟨s₀, h₀, h⟩ := Outcome.bind_eq_ok.mp h
  rw [parseBlocks_cons] at h
  obtain ⟨s₁, h₁, h⟩ := Outcome.bind_eq_ok.mp h
  exact ⟨s₀, s₁, h₀, h₁, h⟩

/-- What every block of a run preserves, the run preserves; by induction on the blocks. -/
theorem parseBlocks_preserves (inv : Parser → Prop) {bs : List Tlv.Block} {s s' : Parser}
    (hstep : ∀ b ∈ bs, ∀ s s', inv s → s.step b.tag b.value = .ok s' → inv s') (hs : inv s)
    (h : parseBlocks bs s = .ok s') : inv s' := by
  induction bs generalizing s with
  | nil => exact (Outcome.ok.inj h) ▸ hs
  | cons b bs ih =>
    rw [parseBlocks_cons] at h
    obtain ⟨s₁, h₁, h⟩ := Outcome.bind_eq_ok.mp h
    have hs₁ := hstep b (List.mem_cons_self ..) s s₁ hs h₁
    exact ih (fun x hx => hstep x (List.mem_cons_of_mem b hx)) hs₁ h

end KeyRing

end Crabapple
