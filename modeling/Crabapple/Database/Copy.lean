import Crabapple.Models.ManifestDb
import Crabapple.Stream.Refinement

/-!
# Copying the decrypted stream

* `Segment.buffers` : the buffers in which the copy gets a segment of plaintext; what comes before a bad
  padding only counts in full buffers;
* `Segment.copied` : what the copy returns and what it writes, the writes failing as `fault` says;
* `Copies` : the copy, from a reader and a file system;
* `copies_short` : a segment shorter than a buffer, which the file that is written may be the source of;
* `copies_segment` : any segment, by induction on its length, where the source is another file.
-/

namespace Crabapple

open Rust Cipher AesCbcDecryptReader

namespace Segment

/-- The buffers in which a segment is read. -/
def buffers (s : Segment) : List Bytes :=
  match s.stop with
  | .clean => chunks copyBufferSize s.bytes
  | _ => chunksExact copyBufferSize s.bytes

/-- What the copy of a segment returns, and what it writes. -/
def copied (P : Primitives) (fault : Nat → Option (Nat × IoError)) (k : Nat) (s : Segment) :
    Outcome IoError Unit × Bytes :=
  let w := written fault k s.buffers
  (match w.2 with
    | some e => .err e
    | none => s.result P >>= fun _ => .ok (), w.1)

variable {P : Primitives} {fault : Nat → Option (Nat × IoError)} {k : Nat} {s : Segment}

theorem copied_long (h : copyBufferSize ≤ s.bytes.length) :
    s.copied P fault k =
      match fault k with
      | some (p, e) => (.err e, (s.bytes.take copyBufferSize).take p)
      | none =>
        let r := copied P fault (k + 1) ⟨s.bytes.drop copyBufferSize, s.stop⟩
        (r.1, s.bytes.take copyBufferSize ++ r.2) := by
  have hpos : 0 < copyBufferSize := by decide
  have hbuffers : s.buffers =
      s.bytes.take copyBufferSize :: buffers ⟨s.bytes.drop copyBufferSize, s.stop⟩ := by
    unfold buffers
    cases s.stop with
    | clean => exact chunks_long hpos h
    | badPadding v => exact chunksExact_long hpos h
    | fault e v => exact chunksExact_long hpos h
  have hresult : ((s.result P >>= fun _ => .ok ()) : Outcome IoError Unit) =
      (result P ⟨s.bytes.drop copyBufferSize, s.stop⟩ >>= fun _ => .ok ()) := by
    unfold result
    cases s.stop <;> rfl
  unfold copied
  rw [hbuffers, written, hresult]
  cases fault k with
  | some f => rfl
  | none => rfl

theorem copied_nil (h : s.bytes = []) :
    s.copied P fault k = (s.result P >>= fun _ => .ok (), []) := by
  have hbuffers : s.buffers = [] := by
    unfold buffers
    rw [h]
    cases s.stop <;> rfl
  unfold copied
  rw [hbuffers]
  rfl

theorem copied_clean (h : s.bytes.length < copyBufferSize) (hne : s.bytes ≠ [])
    (hstop : s.stop = .clean) : s.copied P fault k =
      match fault k with
      | some (p, e) => (.err e, s.bytes.take p)
      | none => (.ok (), s.bytes) := by
  have hbuffers : s.buffers = [s.bytes] := by
    unfold buffers
    rw [hstop]
    exact (chunks_short h).trans (if_neg hne)
  have hresult : s.result P = .ok s.bytes := by
    unfold result
    rw [hstop]
  unfold copied
  rw [hbuffers, hresult, written]
  cases fault k with
  | some f => rfl
  | none => exact congrArg (Prod.mk _) (List.append_nil _)

/-- What comes before a bad padding is lost if it does not fill a buffer. -/
theorem copied_badPadding (h : s.bytes.length < copyBufferSize) {v : View}
    (hstop : s.stop = .badPadding v) : s.copied P fault k =
      (.err ⟨.invalidData, "Padding error: " ++ P.unpadError⟩, []) := by
  have hbuffers : s.buffers = [] := by
    unfold buffers
    rw [hstop]
    exact chunksExact_short h
  have hresult : s.result P = .err ⟨.invalidData, "Padding error: " ++ P.unpadError⟩ := by
    unfold result
    rw [hstop]
  unfold copied
  rw [hbuffers, hresult]
  rfl

end Segment

/-! ## What a reader sees of the file system -/

namespace AesCbcDecryptReader

variable {fs : Fs} {src : Path} {self : AesCbcDecryptReader (BufReader FileCursor)}

theorem seeing_of_eq (h : fs src = some self.inner.inner.content) : self.seeing fs src = self := by
  unfold seeing
  rw [h]

@[simp] theorem seeing_eof : (self.seeing fs src).eof = self.eof := by
  unfold seeing
  cases fs src <;> rfl

@[simp] theorem pending_seeing : (self.seeing fs src).pending = self.pending := by
  unfold seeing
  cases fs src <;> rfl

theorem read_content (content : Bytes) (r : BufReader FileCursor) (n : Nat)
    (h : r.inner.content = content) : (Read.read r n).2.inner.content = content := by
  rw [BufReader.read_def]
  unfold BufReader.read
  split_ifs
  · exact h
  · exact h
  · exact h

theorem reads_nothing {P : Primitives} {n : Nat} (hn : 0 < n) (hp : self.pending = [])
    (heof : self.eof = true) : Reads P n self (.ok []) self := by
  have hpos : ¬ self.bufPos < self.buf.length := Nat.not_lt.mpr (List.drop_eq_nil_iff.mp hp)
  exact .done (round_eof hn hpos heof)

end AesCbcDecryptReader

/-! ## The copy -/

namespace ManifestDb

/-- The copy from a reader, in a file system after `k` writes. -/
def Copies (P : Primitives) (host : Host) (src tmp : Path)
    (self : AesCbcDecryptReader (BufReader FileCursor)) (fs : Fs) (k : Nat)
    (res : Outcome IoError Unit) (fs' : Fs) : Prop :=
  ∃ k', Returns (copier P host src tmp).step ⟨self, [], (fs, k)⟩ (res, (fs', k'))

variable {P : Primitives} {host : Host} {src tmp : Path} {c : Cbc (Arr 16)}
  {self : AesCbcDecryptReader (BufReader FileCursor)} {evs : List Event} {fs : Fs} {k : Nat} {w : Bytes}

/-- The copy of a segment shorter than a buffer: one read and at most one write. -/
theorem copies_short (hr : Ready c self evs)
    (hno : ∀ e v, ((self.view evs).segment c).stop ≠ .fault e v)
    (hshort : ((self.view evs).segment c).bytes.length < copyBufferSize) (hfs : fs tmp = some w) :
    Copies P host src tmp self fs k (((self.view evs).segment c).copied P host.writeFault k).1
      (fs.write tmp (w ++ (((self.view evs).segment c).copied P host.writeFault k).2)) := by
  have hsame : fs.write tmp (w ++ []) = fs := by
    rw [List.append_nil]
    exact Fs.write_eq_self hfs
  have happend : ∀ bs, fs.append tmp bs = fs.write tmp (w ++ bs) := Fs.append_of_eq_some hfs
  obtain ⟨res, self', evs', hread, hr', hserved⟩ := reads_served (P := P) (n := copyBufferSize) hr
  generalize (self.view evs).segment c = s at hno hshort hserved ⊢
  cases hserved with
  | full hm _ => exact absurd hm (Nat.not_le_of_lt hshort)
  | fault _ hs => exact absurd hs (hno _ _)
  | badPadding _ hs =>
    rw [Segment.copied_badPadding hshort hs, hsame]
    exact ⟨k, Copier.read_fault hread (by simp)⟩
  | ended _ hs hp heof =>
    rw [List.nil_append] at hread
    by_cases hnil : s.bytes = []
    · have hresult : s.result P = .ok [] := by
        unfold Segment.result
        rw [hs, hnil]
      rw [Segment.copied_nil hnil, hsame, hresult]
      rw [hnil] at hread
      exact ⟨k, Copier.read_end hread⟩
    · rw [Segment.copied_clean hshort hnil hs]
      cases hfault : host.writeFault k with
      | some f =>
        refine ⟨k + 1, Copier.write_fault hread hnil ?_⟩
        exact (writeAll_fault hfault _).trans (by rw [happend])
      | none =>
        have hwrite : writeAll host.toOs tmp (fs, k) s.bytes =
            (none, (fs.write tmp (w ++ s.bytes), k + 1)) := by
          rw [writeAll_ok hfault, happend]
        -- the next read finds nothing, whatever the write has made of the source
        have hend : ∀ fs' : Fs, Reads P copyBufferSize (self'.seeing fs' src) (.ok [])
            (self'.seeing fs' src) := fun fs' =>
          reads_nothing (by decide) (pending_seeing.trans hp) (seeing_eof.trans heof)
        exact ⟨k + 1, Copier.write_ok hread hnil hwrite (Copier.read_end (hend _))⟩

/-- **The copy** of a segment from a source that is not the file written; by induction on the length of
the segment, one full buffer at a time. -/
theorem copies_segment (hne : src ≠ tmp) (htmp : tmp.NamesFile) {content : Bytes}
    (hsrc : fs src = some content) (hr : Ready c self evs) (hcontent : self.inner.inner.content = content)
    (hno : ∀ e v, ((self.view evs).segment c).stop ≠ .fault e v) :
    Copies P host src tmp self (fs.write tmp w) k
      (((self.view evs).segment c).copied P host.writeFault k).1
      (fs.write tmp (w ++ (((self.view evs).segment c).copied P host.writeFault k).2)) := by
  generalize hs : (self.view evs).segment c = s at hno
  induction hn : s.bytes.length using Nat.strongRecOn generalizing self evs s k w with
  | ind n ih =>
    by_cases hshort : s.bytes.length < copyBufferSize
    · have h : Copies P host src tmp self _ k _ _ := copies_short hr (by rw [hs]; exact hno)
        (by rw [hs]; exact hshort) (show fs.write tmp w tmp = some w from Fs.write_self htmp w)
      rwa [hs, Fs.write_write] at h
    · obtain ⟨res, self', evs', hread, hr', hserved⟩ :=
        reads_served (P := P) (n := copyBufferSize) hr
      have hcontent' : self'.inner.inner.content = content :=
        hread.inner (S := fun r => r.inner.content = content) (read_content content) hcontent
      rw [hs] at hserved
      cases hserved with
      | ended hm _ _ _ => exact absurd hm hshort
      | badPadding hm _ => exact absurd hm hshort
      | fault hm _ => exact absurd hm hshort
      | full hm hv =>
        have hnil : s.bytes.take copyBufferSize ≠ [] := by
          rw [ne_eq, ← List.length_eq_zero_iff, List.length_take, Nat.min_eq_left hm]
          decide
        rw [List.nil_append] at hread
        rw [Segment.copied_long hm]
        cases hfault : host.writeFault k with
        | some f =>
          refine ⟨k + 1, Copier.write_fault hread hnil ?_⟩
          exact (writeAll_fault hfault _).trans (by rw [Fs.append_write htmp])
        | none =>
          have hwrite : writeAll host.toOs tmp (fs.write tmp w, k) (s.bytes.take copyBufferSize) =
              (none, (fs.write tmp (w ++ s.bytes.take copyBufferSize), k + 1)) := by
            rw [writeAll_ok hfault, Fs.append_write htmp]
          have hseen : self'.seeing (fs.write tmp (w ++ s.bytes.take copyBufferSize)) src = self' := by
            apply seeing_of_eq
            rw [Fs.write_of_ne hne, hsrc, hcontent']
          have hlt : (s.bytes.drop copyBufferSize).length < n := by
            rw [List.length_drop, hn]
            have : 0 < copyBufferSize := by decide
            omega
          obtain ⟨k', hrest⟩ := ih _ hlt (w := w ++ s.bytes.take copyBufferSize) (k := k + 1) hr'
            hcontent' _ hv hno rfl
          rw [List.append_assoc, ← hseen] at hrest
          exact ⟨k', Copier.write_ok hread hnil hwrite hrest⟩

end ManifestDb

end Crabapple
