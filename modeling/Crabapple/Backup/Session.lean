import Crabapple.Backup.Image
import Crabapple.Database.Shared

/-!
# Sessions

A caller opens and drops backups, and opens and reads the streams of their files, in any order. Calls fail
in many ways, but no read of an open file does: a stream that has lost a block to such a read may deliver
anything.

* `Stream`, `Session`, `Call` : the open streams with what each has delivered, the live backups, the file
  system; the calls; `Session.Step` : one call and what becomes of it;
* `opensFolder_frame`, `Keeps` : no call changes a file other than the temporary one;
* `Stream.Faithful` : what a stream has delivered, against its file decrypted in memory;
  `faithful_opened`, `faithful_read` : a new stream, and one more read;
* `session_safe` : both, in every run.
-/

namespace Crabapple

open Rust Cipher AesCbcDecryptReader

/-- How far a stream has been read: a call has returned nothing, or an error. -/
inductive Status where
  | reading
  | ended
  | failed
  deriving DecidableEq, Repr

/-- A stream that a caller holds: the file it reads, its reader and what that has delivered. -/
structure Stream where
  backup : Backup
  entry : BackupFileEntry
  source : Path
  reader : AesCbcDecryptReader (BufReader FileCursor)
  delivered : Bytes
  status : Status

/-- The stream after a read of at most `n` bytes. Nothing more is recorded of one that has failed. -/
def Stream.afterRead (st : Stream) (n : Nat) (reader : AesCbcDecryptReader (BufReader FileCursor)) :
    ReadResult → Stream
  | .ok bs =>
    if st.status = .failed then { st with reader }
    else
      { st with
        reader
        delivered := st.delivered ++ bs
        status := if bs = [] ∧ 0 < n then .ended else st.status }
  | _ => { st with reader, status := .failed }

/-- The file system, the live backups and the open streams. -/
structure Session where
  fs : Fs
  backups : List OpenBackup
  streams : List Stream

inductive Call where
  | «open» (host : Host) (backupPath : Path) (auth : Authentication)
  | drop (host : Host) (i : Nat)
  | decryptEntryStream (os : Os) (i : Nat) (entry : BackupFileEntry)
  | read (j n : Nat)
  | close (j : Nat)

namespace Session

/-- One call. A stream outlives its backup, and a call that fails may still leave its trace in the
temporary file. -/
inductive Step (P : Primitives) (plat : Platform) : Session → Call → Session → Prop
  | opened {s host backupPath auth backup fs'}
      (h : Backup.OpensFolder P plat host s.fs backupPath auth (.ok backup) fs') :
      Step P plat s (.open host backupPath auth) { s with fs := fs', backups := s.backups ++ [backup] }
  | notOpened {s host backupPath auth res fs'}
      (h : Backup.OpensFolder P plat host s.fs backupPath auth res fs')
      (hres : ∀ backup, res ≠ .ok backup) :
      Step P plat s (.open host backupPath auth) { s with fs := fs' }
  | dropped {s host i} {backup : OpenBackup} (h : s.backups[i]? = some backup) :
      Step P plat s (.drop host i)
        { s with fs := backup.manifestDb.drop host s.fs, backups := s.backups.eraseIdx i }
  | streamed {s os i entry source reader} {backup : OpenBackup} (hi : s.backups[i]? = some backup)
      (hsource : backup.streamPath entry = .ok source)
      (h : backup.decryptEntryStream P os s.fs entry = .ok reader) :
      Step P plat s (.decryptEntryStream os i entry)
        { s with streams := s.streams ++ [⟨backup.toBackup, entry, source, reader, [], .reading⟩] }
  | notStreamed {s os i entry} {backup : OpenBackup} (hi : s.backups[i]? = some backup)
      (h : ∀ reader, backup.decryptEntryStream P os s.fs entry ≠ .ok reader) :
      Step P plat s (.decryptEntryStream os i entry) s
  | read {s j n st res reader} (hj : s.streams[j]? = some st)
      (h : Reads P n (st.reader.seeing s.fs st.source) res reader) :
      Step P plat s (.read j n) { s with streams := s.streams.set j (st.afterRead n reader res) }
  | closed {s j} : Step P plat s (.close j) { s with streams := s.streams.eraseIdx j }

end Session

/-! ## What the calls leave alone -/

section Frame

variable {P : Primitives} {plat : Platform} {host : Host} {fs fs' : Fs} {backupPath : Path}
  {auth : Authentication}

namespace Backup

/-- Opening a folder changes no file other than the temporary one, whatever it returns. -/
theorem opensFolder_frame {res : Result OpenBackup}
    (h : OpensFolder P plat host fs backupPath auth res fs') {path : Path}
    (hpath : path ≠ ManifestDb.tmpPath plat.tempDir) : fs' path = fs path := by
  rcases opensFolder_inv h with ⟨rfl, -⟩ | ⟨_, _, _, -, -, hnews, -⟩
  · rfl
  · exact ManifestDb.news_frame hnews fun _ => hpath

theorem tmp_of_isTemporary {backup : OpenBackup}
    (h : OpensFolder P plat host fs backupPath auth (.ok backup) fs')
    (htemp : backup.manifestDb.isTemporary = true) :
    backup.manifestDb.dbPath = ManifestDb.tmpPath plat.tempDir := by
  obtain ⟨-, -, -, -, hnews⟩ := opensFolder_eq_ok.mp h
  rcases ManifestDb.news_eq_ok.mp hnews with ⟨-, -, -, hdb, -⟩ | ⟨_, _, _, -, -, -, hdb, -⟩
  · rw [hdb] at htemp
    cases htemp
  · rw [hdb]

end Backup

end Frame

/-! ## What a stream delivers -/

namespace Backup

variable {P : Primitives} {os : Os} {fs : Fs} {self : Backup} {entry : BackupFileEntry} {ct : Bytes}
  {key : EncryptionKey}

theorem entryFile_eq_ok : entryFile P os fs self entry = .ok (ct, key) ↔
    self.isEncrypted = true ∧ ∃ source, self.streamPath entry = .ok source ∧
      os.openError source = none ∧ fs source = some ct ∧ self.unwrapKeyForEntry P entry = .ok key := by
  unfold entryFile streamPath
  cases self.isEncrypted with
  | false => simp
  | true =>
    simp only [Bool.true_eq_false, if_false, Outcome.bind_eq_ok, Outcome.mapErr_eq_ok, Outcome.ok.injEq,
      Prod.mk.injEq, true_and]
    constructor
    · rintro ⟨source, hsource, _, hread, _, hunwrap, rfl, rfl⟩
      obtain ⟨file, hopen, hcontent⟩ := Outcome.bind_eq_ok.mp hread
      obtain rfl := Outcome.ok.inj hcontent
      obtain ⟨hos, hfs, -⟩ := openFile_eq_ok.mp hopen
      exact ⟨_, ⟨source, hsource, rfl⟩, hos, hfs, hunwrap⟩
    · rintro ⟨_, ⟨source, hsource, rfl⟩, hos, hfs, hunwrap⟩
      refine ⟨source, hsource, ct, ?_, key, hunwrap, rfl, rfl⟩
      exact Outcome.bind_eq_ok.mpr ⟨⟨ct, 0⟩, openFile_eq_ok.mpr ⟨hos, hfs, rfl⟩, rfl⟩

end Backup

namespace Stream

variable {P : Primitives} {fs fs₀ : Fs} {st : Stream}

theorem afterRead_fields (st : Stream) (n : Nat) (reader : AesCbcDecryptReader (BufReader FileCursor))
    (res : ReadResult) :
    (st.afterRead n reader res).backup = st.backup ∧ (st.afterRead n reader res).entry = st.entry ∧
    (st.afterRead n reader res).source = st.source ∧ (st.afterRead n reader res).reader = reader := by
  unfold afterRead
  split
  · split_ifs <;> exact ⟨rfl, rfl, rfl, rfl⟩
  · exact ⟨rfl, rfl, rfl, rfl⟩

/-- What a stream has delivered, against its file decrypted in memory: a part of it from the start; all of
it, once a call has returned nothing; and where a call has failed, the file cannot be decrypted. -/
def Faithful (P : Primitives) (fs : Fs) (st : Stream) : Prop :=
  match st.status with
  | .reading => ∀ p, st.backup.decryptEntry P Os.sound fs st.entry = .ok p → st.delivered <+: p
  | .ended => st.backup.decryptEntry P Os.sound fs st.entry = .ok st.delivered
  | .failed => (st.backup.decryptEntry P Os.sound fs st.entry).IsErr

/-- What a stream has delivered and what its reader still holds, the segment `s`, are the plaintext of the
file `ct` under `key`, or what comes before its bad padding. -/
structure Splits (P : Primitives) (ct : Bytes) (key : EncryptionKey) (st : Stream) (evs : List Event)
    (s : Segment) : Prop where
  ready : Ready (aesCbc P key.bytes) st.reader evs
  segment : (st.reader.view evs).segment (aesCbc P key.bytes) = s
  plain : Segment.Plain (aesCbc P key.bytes) (toBlocks 16 ct) ⟨st.delivered ++ s.bytes, s.stop⟩
  ended : st.status = .ended → s = ⟨[], .clean⟩

/-- The invariant of a stream. -/
def Tracks (P : Primitives) (ct : Bytes) (key : EncryptionKey) (st : Stream) : Prop :=
  if st.status = .failed then (aesDecryptCbcWithPadding P ct key).IsErr
  else ∃ evs s, st.Splits P ct key evs s

/-- The same, of the file that the stream was opened on. -/
structure Invariant (P : Primitives) (fs : Fs) (st : Stream) : Prop where
  exists_file : ∃ ct key, Backup.entryFile P Os.sound fs st.backup st.entry = .ok (ct, key) ∧
    key.bytes.length = 32 ∧ fs st.source = some ct ∧ st.reader.inner.inner.content = ct ∧
    st.Tracks P ct key

theorem Invariant.faithful (h : st.Invariant P fs) : st.Faithful P fs := by
  obtain ⟨ct, key, hfile, hkey, -, -, htracks⟩ := h.exists_file
  have hdecrypt : st.backup.decryptEntry P Os.sound fs st.entry = aesDecryptCbcWithPadding P ct key := by
    rw [Backup.decryptEntry_eq, hfile, Outcome.ok_bind]
  unfold Tracks at htracks
  unfold Faithful
  rw [hdecrypt]
  cases hstatus : st.status with
  | failed =>
    rw [if_pos hstatus] at htracks
    exact htracks
  | reading =>
    rw [if_neg (by simp [hstatus])] at htracks
    obtain ⟨evs, s, hsplits⟩ := htracks
    have hplain := hsplits.plain
    intro p hp
    rw [aesDecryptCbcWithPadding_eq hkey, Outcome.okOr_eq_ok] at hp
    unfold Segment.Plain at hplain
    rw [hp] at hplain
    exact ⟨s.bytes, congrArg Segment.bytes hplain⟩
  | ended =>
    rw [if_neg (by simp [hstatus])] at htracks
    obtain ⟨evs, s, hsplits⟩ := htracks
    have hplain := hsplits.plain
    rw [hsplits.ended hstatus] at hplain
    show aesDecryptCbcWithPadding P ct key = .ok st.delivered
    rw [aesDecryptCbcWithPadding_eq hkey, Outcome.okOr_eq_ok]
    unfold Segment.Plain at hplain
    split at hplain
    · next p hp =>
      have hbytes : st.delivered ++ [] = p := congrArg Segment.bytes hplain
      rw [hp, ← hbytes, List.append_nil]
    · obtain ⟨v, hv⟩ := hplain
      cases congrArg Segment.stop hv

theorem invariant_opened {os : Os} {backup : Backup} {entry : BackupFileEntry} {source : Path}
    {reader : AesCbcDecryptReader (BufReader FileCursor)} (hsource : backup.streamPath entry = .ok source)
    (hfs : fs source = fs₀ source) (h : backup.decryptEntryStream P os fs entry = .ok reader) :
    Invariant P fs₀ ⟨backup, entry, source, reader, [], .reading⟩ := by
  rw [Backup.decryptEntryStream_eq] at h
  obtain ⟨⟨ct, key⟩, hfile, hfrom⟩ := Outcome.bind_eq_ok.mp h
  obtain ⟨henc, source', hsource', hos, hct, hunwrap⟩ := Backup.entryFile_eq_ok.mp hfile
  obtain rfl := Outcome.ok.inj (hsource.symm.trans hsource')
  rw [hfs] at hct
  obtain ⟨hkey, -, hreader⟩ := from_file.mp hfrom
  obtain ⟨evs, hready, hplain⟩ := from_file_segment hfrom
  refine ⟨ct, key, Backup.entryFile_eq_ok.mpr ⟨henc, source, hsource, rfl, hct, hunwrap⟩, hkey, hct, ?_, ?_⟩
  · rw [hreader]
    rfl
  · unfold Tracks
    rw [if_neg (by simp)]
    exact ⟨evs, _, hready, rfl, hplain, by simp⟩

theorem tracks_of_splits {ct : Bytes} {key : EncryptionKey} {evs : List Event} {s : Segment} {n : Nat}
    {res : ReadResult} {reader : AesCbcDecryptReader (BufReader FileCursor)}
    (hkey : key.bytes.length = 32) (h : st.Splits P ct key evs s) (hstatus : st.status ≠ .failed)
    (hread : Reads P n st.reader res reader) : (st.afterRead n reader res).Tracks P ct key := by
  obtain ⟨evs', hready', hserved⟩ := served_of_reads h.ready hread
  rw [h.segment] at hserved
  have hplain := h.plain
  have hok : ∀ bs, st.afterRead n reader (.ok bs) =
      { st with
        reader
        delivered := st.delivered ++ bs
        status := if bs = [] ∧ 0 < n then .ended else st.status } := fun bs => if_neg hstatus
  have hopen : ∀ bs, (st.afterRead n reader (.ok bs)).status ≠ .failed := by
    intro bs
    rw [hok]
    show (if _ then _ else _) ≠ _
    split_ifs
    · simp
    · exact hstatus
  unfold Tracks
  cases hserved with
  | full hm hv =>
    rw [if_neg (hopen _), hok]
    refine ⟨evs', _, hready', hv, ?_, ?_⟩
    · show Segment.Plain _ _ ⟨st.delivered ++ ([] ++ s.bytes.take n) ++ s.bytes.drop n, s.stop⟩
      rw [List.nil_append, List.append_assoc, List.take_append_drop]
      exact hplain
    · intro hended
      have hprev : st.status = .ended := by
        by_contra hnot
        have hnil : ([] : Bytes) ++ s.bytes.take n = [] ∧ 0 < n := by
          by_contra hno
          exact hnot ((if_neg hno).symm.trans hended)
        rw [List.nil_append, ← List.length_eq_zero_iff, List.length_take] at hnil
        omega
      rw [h.ended hprev, List.drop_nil]
  | ended hm hstop hp hv =>
    rw [if_neg (hopen _), hok]
    refine ⟨evs', ⟨[], .clean⟩, hready', ?_, ?_, fun _ => rfl⟩
    · show (reader.view evs').segment _ = _
      unfold View.segment
      rw [hv, if_pos rfl, hp]
    · show Segment.Plain _ _ ⟨st.delivered ++ ([] ++ s.bytes) ++ [], .clean⟩
      rw [List.nil_append, List.append_nil, ← hstop]
      exact hplain
  | badPadding hm hstop =>
    show if Status.failed = .failed then _ else _
    rw [if_pos rfl, aesDecryptCbcWithPadding_eq hkey]
    unfold Segment.Plain at hplain
    split at hplain
    · have hclean : s.stop = .clean := congrArg Segment.stop hplain
      rw [hstop] at hclean
      cases hclean
    · next hnone =>
      rw [hnone]
      exact Outcome.isErr_err _
  | fault hm hstop => exact absurd hstop (hplain.no_fault _ _)

/-- **One more read** keeps the invariant, if the file is as it was. -/
theorem invariant_read {n : Nat} {res : ReadResult} {reader : AesCbcDecryptReader (BufReader FileCursor)}
    (h : st.Invariant P fs₀) (hfs : fs st.source = fs₀ st.source)
    (hread : Reads P n (st.reader.seeing fs st.source) res reader) :
    (st.afterRead n reader res).Invariant P fs₀ := by
  obtain ⟨ct, key, hfile, hkey, hct, hcontent, htracks⟩ := h.exists_file
  rw [seeing_of_eq (by rw [hfs, hct, hcontent])] at hread
  have hcontent' : reader.inner.inner.content = ct :=
    hread.inner (fun r n => read_content ct r n) hcontent
  obtain ⟨hbackup, hentry, hsource, hreader⟩ := afterRead_fields st n reader res
  refine ⟨ct, key, by rw [hbackup, hentry, hfile], hkey, by rw [hsource, hct], by rw [hreader, hcontent'], ?_⟩
  by_cases hstatus : st.status = .failed
  · have hfailed : (st.afterRead n reader res).status = .failed := by
      unfold afterRead
      split
      · rw [if_pos hstatus]
        exact hstatus
      · rfl
    unfold Tracks at htracks ⊢
    rw [if_pos hstatus] at htracks
    rw [if_pos hfailed]
    exact htracks
  · unfold Tracks at htracks
    rw [if_neg hstatus] at htracks
    obtain ⟨evs, s, hsplits⟩ := htracks
    exact tracks_of_splits hkey hsplits hstatus hread

end Stream

/-! ## Sessions -/

namespace Session

variable {P : Primitives} {plat : Platform} {fs₀ : Fs} {s s' : Session} {call : Call}

/-- Only the temporary file is changed, live temporary databases are in it, and every stream of another
file has its invariant. -/
structure Invariant (P : Primitives) (plat : Platform) (fs₀ : Fs) (s : Session) : Prop where
  frame : ∀ path, path ≠ ManifestDb.tmpPath plat.tempDir → s.fs path = fs₀ path
  temporary : ∀ backup ∈ s.backups, backup.manifestDb.isTemporary = true →
    backup.manifestDb.dbPath = ManifestDb.tmpPath plat.tempDir
  streams : ∀ st ∈ s.streams, st.source ≠ ManifestDb.tmpPath plat.tempDir → st.Invariant P fs₀

/-- **One call** keeps the invariant. -/
theorem invariant_step (h : s.Invariant P plat fs₀) (hstep : Step P plat s call s') :
    s'.Invariant P plat fs₀ := by
  cases hstep with
  | opened hopens =>
    refine ⟨fun path hpath => ?_, fun backup hbackup => ?_, h.streams⟩
    · exact (Backup.opensFolder_frame hopens hpath).trans (h.frame path hpath)
    · rcases List.mem_append.mp hbackup with hold | hnew
      · exact h.temporary backup hold
      · obtain rfl := List.mem_singleton.mp hnew
        exact Backup.tmp_of_isTemporary hopens
  | notOpened hopens _ =>
    refine ⟨fun path hpath => ?_, h.temporary, h.streams⟩
    exact (Backup.opensFolder_frame hopens hpath).trans (h.frame path hpath)
  | dropped hbackup =>
    have hmem := List.mem_of_getElem? hbackup
    refine ⟨fun path hpath => ?_, fun backup hb => h.temporary backup (List.mem_of_mem_eraseIdx hb),
      h.streams⟩
    refine (ManifestDb.drop_frame fun htemp => ?_).trans (h.frame path hpath)
    rw [h.temporary _ hmem htemp]
    exact hpath
  | streamed hi hsource hstream =>
    refine ⟨h.frame, h.temporary, fun st hst hne => ?_⟩
    rcases List.mem_append.mp hst with hold | hnew
    · exact h.streams st hold hne
    · obtain rfl := List.mem_singleton.mp hnew
      exact Stream.invariant_opened hsource (h.frame _ hne) hstream
  | notStreamed _ _ => exact h
  | @read j n st res reader hj hread =>
    refine ⟨h.frame, h.temporary, fun st' hst' hne => ?_⟩
    rcases List.mem_or_eq_of_mem_set hst' with hold | rfl
    · exact h.streams st' hold hne
    · obtain ⟨-, -, hsource, -⟩ := Stream.afterRead_fields st n reader res
      rw [hsource] at hne
      exact Stream.invariant_read (h.streams st (List.mem_of_getElem? hj) hne) (h.frame _ hne) hread
  | closed =>
    exact ⟨h.frame, h.temporary, fun st hst => h.streams st (List.mem_of_mem_eraseIdx hst)⟩

/-- Every read of a stream that has not failed returns. -/
theorem exists_read (h : s.Invariant P plat fs₀) {j n : Nat} {st : Stream} (hj : s.streams[j]? = some st)
    (hne : st.source ≠ ManifestDb.tmpPath plat.tempDir) (hstatus : st.status ≠ .failed) :
    ∃ s', Step P plat s (.read j n) s' := by
  obtain ⟨ct, key, -, -, hct, hcontent, htracks⟩ :=
    (h.streams st (List.mem_of_getElem? hj) hne).exists_file
  unfold Stream.Tracks at htracks
  rw [if_neg hstatus] at htracks
  obtain ⟨evs, seg, hsplits⟩ := htracks
  obtain ⟨res, reader, -, hread, -, -⟩ := reads_served (P := P) (n := n) hsplits.ready
  have hsees : st.reader.seeing s.fs st.source = st.reader :=
    seeing_of_eq (by rw [h.frame _ hne, hct, hcontent])
  exact ⟨_, .read hj (hsees.symm ▸ hread)⟩

theorem invariant_of_trace {calls : List Call} (h : Trace (Step P plat) ⟨fs₀, [], []⟩ calls s) :
    s.Invariant P plat fs₀ := by
  refine h.invariant (I := Invariant P plat fs₀) ?_ fun _ _ _ => invariant_step
  exact ⟨fun _ _ => rfl, by simp, by simp⟩

/-- **Sessions are safe**, where the reads of open files do not fail. However the calls are interleaved,
whatever they return, no file other than the temporary one is ever changed; and every stream of such a file
delivers what the file is decrypted to in memory, also when its backup is dropped and others are opened
meanwhile, and can be read on unless it has failed. -/
theorem session_safe (P : Primitives) (plat : Platform) (fs : Fs) (calls : List Call) (s : Session)
    (h : Trace (Step P plat) ⟨fs, [], []⟩ calls s) :
    (∀ path, path ≠ ManifestDb.tmpPath plat.tempDir → s.fs path = fs path) ∧
    (∀ st ∈ s.streams, st.source ≠ ManifestDb.tmpPath plat.tempDir → st.Faithful P fs) ∧
    ∀ j n st, s.streams[j]? = some st → st.source ≠ ManifestDb.tmpPath plat.tempDir →
      st.status ≠ .failed → ∃ s', Step P plat s (.read j n) s' := by
  have hinv := invariant_of_trace h
  refine ⟨hinv.frame, fun st hst hne => (hinv.streams st hst hne).faithful, ?_⟩
  intro j n st hj hne hstatus
  exact exists_read hinv hj hne hstatus

/-- A stream of the image of zeros is read after its backup was dropped. -/
theorem session_zero : ∃ fs calls s st,
    Trace (Step Primitives.zero (Image.zeroPlatform .any)) ⟨fs, [], []⟩ calls s ∧ calls.length = 4 ∧
    s.backups = [] ∧ s.streams = [st] ∧ st.Faithful Primitives.zero fs := by
  obtain ⟨_, backup, fs', hopens, hpath, -, hread⟩ := Image.zeroImage_opened
  obtain ⟨reader, hstream, -⟩ := hread.streamed Image.zeroItem (List.mem_singleton.mpr rfl) _ rfl
    (fun _ => 1) fun _ => Nat.one_pos
  have hsource : backup.streamPath (Image.zeroItem.entry Primitives.zero) =
      .ok (Backup.located backup.backupPath "ab".toList "ab".toList) :=
    Backup.streamPath_eq (by decide)
  have hne : Backup.located backup.backupPath "ab".toList "ab".toList ≠
      ManifestDb.tmpPath ManifestDb.tempDirPath := by
    rw [hpath]
    decide
  let st : Stream := ⟨backup.toBackup, Image.zeroItem.entry Primitives.zero,
    Backup.located backup.backupPath "ab".toList "ab".toList, reader, [], .reading⟩
  have hopened : Step Primitives.zero (Image.zeroPlatform .any) ⟨_, [], []⟩
      (.open Host.sound Image.backupFolder (.password [])) ⟨fs', [backup], []⟩ := .opened hopens
  have hstreamed : Step Primitives.zero (Image.zeroPlatform .any) ⟨fs', [backup], []⟩
      (.decryptEntryStream Os.sound 0 st.entry) ⟨fs', [backup], [st]⟩ := .streamed rfl hsource hstream
  have hdropped : Step Primitives.zero (Image.zeroPlatform .any) ⟨fs', [backup], [st]⟩
      (.drop Host.sound 0) ⟨backup.manifestDb.drop Host.sound fs', [], [st]⟩ := .dropped rfl
  have htrace := ((Trace.nil.snoc hopened).snoc hstreamed).snoc hdropped
  obtain ⟨s', hstep⟩ : ∃ s', Step Primitives.zero (Image.zeroPlatform .any)
      ⟨backup.manifestDb.drop Host.sound fs', [], [st]⟩ (.read 0 16) s' :=
    exists_read (invariant_of_trace htrace) rfl hne (by simp [st])
  have hend := htrace.snoc hstep
  cases hstep with
  | @read _ _ st' res reader' hj _ =>
    obtain rfl := Option.some.inj hj
    have hmem : (st.afterRead 16 reader' res) ∈ [st.afterRead 16 reader' res] :=
      List.mem_singleton.mpr rfl
    have hsource' : (st.afterRead 16 reader' res).source = st.source :=
      (Stream.afterRead_fields st 16 reader' res).2.2.1
    refine ⟨_, _, _, _, hend, rfl, rfl, rfl, (session_safe _ _ _ _ _ hend).2.1 _ hmem ?_⟩
    rw [hsource']
    exact hne

end Session

end Crabapple
