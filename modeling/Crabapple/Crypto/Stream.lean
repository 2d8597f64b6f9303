import Crabapple.Crypto.Keys
import Crabapple.Rust.Loop

/-!
# The streaming decryptor

* `Decryptor` : `cbc::Decryptor`, a block cipher and its chaining value;
* `AesCbcDecryptReader`, `AesCbcDecryptReader.from` : the reader of `crypto.rs` and its constructor;
* `round n` : one round of the loop of `read` into a buffer of `n` bytes; `Reads` : the whole call;
* `ReadToEnd sizes` : calls with the buffer sizes `sizes` until one returns no byte or fails.
-/

namespace Crabapple

open Rust Cipher

/-- Buffer size for reading ciphertext. -/
def streamBufferSize : Nat := 8 * 1024

/-- `cbc::Decryptor`. -/
structure Decryptor where
  cbc : Cbc (Arr 16)
  iv : Arr 16

namespace Decryptor

/-- `decrypt_block`: the chaining value becomes the ciphertext block. -/
def decryptBlock (d : Decryptor) (block : Arr 16) : Arr 16 × Decryptor :=
  (d.cbc.decryptBlock d.iv block, { d with iv := block })

/-- The loop over the chunks of a refill, `buf` growing; a chunk that is no block ends it. -/
def decryptChunks : List Bytes → Decryptor → Bytes → Bool × Decryptor × Bytes
  | [], d, buf => (true, d, buf)
  | chunk :: chunks, d, buf =>
    match Arr.ofBytes? 16 chunk with
    | none => (false, d, buf)
    | some block =>
      match d.decryptBlock block with
      | (plain, d') => decryptChunks chunks d' (buf ++ plain.toList)

end Decryptor

/-- `AesCbcDecryptReader`. -/
structure AesCbcDecryptReader (R : Type) where
  inner : R
  cipher : Decryptor
  lookahead : Arr 16
  buf : Bytes
  bufPos : Nat
  eof : Bool

namespace AesCbcDecryptReader

variable {R : Type} [Read R] (P : Primitives)

/-- `AesCbcDecryptReader::from`: one read for the first block, whatever the source returns for it. -/
def «from» (reader : R) (key : EncryptionKey) : Result (AesCbcDecryptReader (BufReader R)) := do
  let keyArray ← .okOr (Arr.ofBytes? 32 key.bytes) (.invalidCryptoDataLength 32 key.bytes.length)
  match Read.read (BufReader.withCapacity streamBufferSize reader) 16 with
  | (.error e, _) => .err (.crypto ("I/O error: " ++ e.text))
  | (.ok bs, inner) =>
    if bs.length = 0 then .err (.crypto "Ciphertext empty")
    else
      match Arr.ofBytes? 16 bs with
      | none => .err (.crypto ("Unexpected ciphertext length: " ++ toString bs.length))
      | some lookahead =>
        .ok { inner, cipher := ⟨aesCbc P keyArray.toList, zeroIv⟩, lookahead, buf := [], bufPos := 0,
              eof := false }

theorem from_ne_panic (reader : R) (key : EncryptionKey) : «from» P reader key ≠ .panic := by
  apply Outcome.bind_ne_panic (Outcome.okOr_ne_panic _ _)
  intro keyArray _
  split
  · simp
  · split_ifs
    · simp
    · split <;> simp

/-- What a call to `read` returns, the bytes that it put into the buffer. -/
abbrev ReadResult := Outcome IoError Bytes

/-- The final block: decrypt it and take its padding off. The cipher has moved on even if that fails. -/
def finish (self : AesCbcDecryptReader R) : Except IoError Unit × AesCbcDecryptReader R :=
  match self.cipher.decryptBlock self.lookahead with
  | (block, cipher) =>
    match Pkcs7.unpad block.toList with
    | none => (.error ⟨.invalidData, "Padding error: " ++ P.unpadError⟩, { self with cipher })
    | some pt => (.ok (), { self with cipher, buf := pt, bufPos := 0, eof := true })

/-- A chunk of ciphertext: decrypt all whole blocks but the last, which becomes the lookahead. What
the chunk holds after its last whole block is dropped. -/
def refill (self : AesCbcDecryptReader R) (chunk : Bytes) :
    Outcome IoError Unit × AesCbcDecryptReader R :=
  let data := self.lookahead.toList ++ chunk
  let numBlocks := data.length / 16
  if numBlocks = 0 then (.ok (), self)
  else
    match slice data 0 ((numBlocks - 1) * 16) with
    | none => (.panic, self)
    | some body =>
      match Decryptor.decryptChunks (chunksExact 16 body) self.cipher [] with
      | (false, cipher, buf) =>
        (.err ⟨.invalidData, "block conversion: could not convert slice to array"⟩,
          { self with cipher, buf })
      | (true, cipher, buf) =>
        let lastStart := (numBlocks - 1) * 16
        match (slice data lastStart (lastStart + 16)).bind (Arr.ofBytes? 16) with
        | none => (.panic, { self with cipher, buf })
        | some lookahead => (.ok (), { self with cipher, buf, lookahead, bufPos := 0 })

/-- The state of the loop of `read`: the reader, and the bytes written to the buffer so far. -/
abbrev LoopState (R : Type) := AesCbcDecryptReader R × Bytes

/-- One round of the loop of `read`, the buffer having `n` bytes. -/
def round (n : Nat) (s : LoopState R) : Step (LoopState R) (ReadResult × AesCbcDecryptReader R) :=
  let (self, written) := s
  if written.length < n then
    if self.bufPos < self.buf.length then
      -- flush pending plaintext
      let toCopy := min (self.buf.length - self.bufPos) (n - written.length)
      match slice self.buf self.bufPos (self.bufPos + toCopy) with
      | none => .done (.panic, self)
      | some bs =>
        if written.length + toCopy ≤ n ∧ bs.length = toCopy then
          .next ({ self with bufPos := self.bufPos + toCopy }, written ++ bs)
        else .done (.panic, self)
    else if self.eof then .done (.ok written, self)
    else
      match Read.read self.inner streamBufferSize with
      | (.error e, inner) => .done (.err e, { self with inner })
      | (.ok chunk, inner) =>
        let self := { self with inner }
        if chunk.length = 0 then
          match self.finish P with
          | (.error e, self) => .done (.err e, self)
          | (.ok (), self) => .next (self, written)
        else
          match self.refill chunk with
          | (.ok (), self) => .next (self, written)
          | (.err e, self) => .done (.err e, self)
          | (.panic, self) => .done (.panic, self)
  else .done (.ok written, self)

/-- `<AesCbcDecryptReader as Read>::read`: a call with a buffer of `n` bytes returns `res` and leaves
the reader as `self'`. A source that never ends may keep the loop going for ever. -/
def Reads (n : Nat) (self : AesCbcDecryptReader R) (res : ReadResult)
    (self' : AesCbcDecryptReader R) : Prop :=
  Returns (round P n) (self, []) (res, self')

/-- Calls with buffers of the given sizes until one returns `Ok(0)` or an error; the bytes of all of
them together, or the error. -/
inductive ReadToEnd : (Nat → Nat) → AesCbcDecryptReader R → ReadResult → Prop
  | eof {sizes self self'} (h : Reads P (sizes 0) self (.ok []) self') :
      ReadToEnd sizes self (.ok [])
  | more {sizes self self' bs res} (h : Reads P (sizes 0) self (.ok bs) self') (hne : bs ≠ [])
      (hrest : ReadToEnd (fun k => sizes (k + 1)) self' res) :
      ReadToEnd sizes self (res >>= fun cs => .ok (bs ++ cs))
  | err {sizes self self' e} (h : Reads P (sizes 0) self (.err e) self') :
      ReadToEnd sizes self (.err e)
  | panic {sizes self self'} (h : Reads P (sizes 0) self .panic self') :
      ReadToEnd sizes self .panic

end AesCbcDecryptReader

end Crabapple
