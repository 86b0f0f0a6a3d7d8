import RocksKV.Storage.LogRead
import RocksKV.Storage.Replay
/-!
# Log files that have been altered (`pkg/storage/command_log.go:320-421`, `:631-687`)

The three scans of the log (`readFromIndex`, `readFromFullScan`, `ReplayTo`) leave a file at the first entry that does
not decode and go on with the next file. An altered entry in a file that is not the last one therefore cuts out the
rest of its file, and the entries of the later files follow as if nothing were missing.

`Altered f g`: the file `f` as it was written and as it is found later. The checksum is assumed to detect the change:
where an entry started there is this entry or nothing that decodes.

`Contained` says where the damage may be, and `corruption_contained_iff` that the scans skip nothing exactly then.
Both the log whose files were altered while it was open, which still has its index, and one that is opened on the
altered files are covered.
-/

namespace RocksKV.Storage

open Lib CommandLog

/-- All that decodes in some files. -/
def framesOf (files : List LogFile) : List CommandEntry := files.flatMap fun f => entryCodec.frames f.data

structure Altered (f g : LogFile) : Prop where
  fileNum  : g.fileNum = f.fileNum
  length   : g.data.length = f.data.length
  detected : entryCodec.Detects (entryCodec.frames f.data) g.data

/-- A file that has lost an entry is followed only by files from which nothing can be read. -/
def Contained : List LogFile → List LogFile → Prop
  | f :: fs, g :: gs =>
    (entryCodec.frames g.data = entryCodec.frames f.data ∨ ∀ g' ∈ gs, entryCodec.frames g'.data = []) ∧
      Contained fs gs
  | _, _ => True

/-- The numbers returned are consecutive, and begin with `fromSeq` if there was such an entry. -/
structure NoGap (written : List CommandEntry) (fromSeq : UInt64) (returned : List CommandEntry) : Prop where
  consecutive : ∃ a, returned.map (fun e => e.sequence.toNat) = List.range' a returned.length
  start       : (∃ e ∈ written, e.sequence = fromSeq) → ∀ x, returned.head? = some x → x.sequence = fromSeq

/-- Before `ReplayTo` comes to apply an entry it has come to every earlier one behind `fromSeq`. -/
def ReplaysInOrder (written : List CommandEntry) (cl : CommandLog) : Prop :=
  ∀ db fromSeq pre e post, cl.replayTrace db fromSeq = pre ++ e :: post →
    ∀ x ∈ written, fromSeq < x.sequence → x.sequence < e.sequence → x ∈ pre

/-! ## Numbers -/

/-- A stretch of the log from the right place on. -/
theorem noGap_of_prefix {es xs : List CommandEntry} (hnum : Numbered es) {a : Nat} (hxs : xs <+: es.drop a)
    {fromSeq : UInt64} (hfrom : (∃ e ∈ es, e.sequence = fromSeq) → fromSeq.toNat = a + 1) : NoGap es fromSeq xs := by
  obtain ⟨t, ht⟩ := hxs
  have hlen := congrArg List.length ht
  rw [List.length_append, List.length_drop] at hlen
  have hmap : xs.map (fun e => e.sequence.toNat) = List.range' (a + 1) xs.length := by
    have hdrop : (es.drop a).map (fun e => e.sequence.toNat) = List.range' (a + 1) (es.length - a) := by
      rw [List.map_drop, hnum, List.drop_range', Nat.mul_one, Nat.add_comm 1 a]
    rw [← ht, List.map_append, show es.length - a = xs.length + t.length by omega, ← List.range'_append_1] at hdrop
    exact (List.append_inj hdrop (by simp)).1
  refine ⟨⟨a + 1, hmap⟩, fun hw x hx => ?_⟩
  cases xs with
  | nil => cases hx
  | cons y rest =>
    cases hx
    rw [List.map_cons, List.length_cons, List.range'_succ] at hmap
    apply UInt64.toNat_inj.1
    rw [hfrom hw]
    exact (List.cons.inj hmap).1

/-- Entries of a numbered list that are numbered themselves are its first ones. -/
theorem prefix_of_numbered {es xs : List CommandEntry} (hes : Numbered es) (hxs : Numbered xs)
    (hsub : ∀ x ∈ xs, x ∈ es) : xs <+: es := by
  rw [List.prefix_iff_eq_take]
  have hlt : ∀ i (hi : i < xs.length), es[i]? = some xs[i] := by
    intro i hi
    obtain ⟨j, hj, hget⟩ := List.getElem_of_mem (hsub xs[i] (List.getElem_mem hi))
    have hseq := hxs.sequence_getElem hi
    rw [← hget, hes.sequence_getElem hj] at hseq
    obtain rfl : j = i := by omega
    rw [List.getElem?_eq_getElem hj, hget]
  refine List.ext_getElem? fun i => ?_
  rw [List.getElem?_take]
  split_ifs with hi
  · rw [hlt i hi, List.getElem?_eq_getElem hi]
  · exact List.getElem?_eq_none (not_lt.1 hi)

/-- A part of a list with increasing numbers is a first part if nothing is missing before any of its entries. -/
theorem prefix_of_inOrder {es xs : List CommandEntry} (hsub : xs.Sublist es)
    (hes : es.Pairwise fun a b => a.sequence < b.sequence)
    (hall : ∀ pre e post, xs = pre ++ e :: post → ∀ x ∈ es, x.sequence < e.sequence → x ∈ pre) : xs <+: es := by
  induction hsub with
  | slnil => exact List.prefix_refl _
  | @cons xs es a hsub ih =>
    cases xs with
    | nil => exact List.nil_prefix
    | cons x xs =>
      -- `a` is missing before the first entry
      have hlt := List.rel_of_pairwise_cons hes (hsub.subset List.mem_cons_self)
      cases hall [] x xs rfl a List.mem_cons_self hlt
  | @cons_cons xs es a hsub ih =>
    rw [List.prefix_cons_inj]
    refine ih hes.of_cons fun pre e post hxs x hx hlt => ?_
    have hmem := hall (a :: pre) e post (by rw [hxs, List.cons_append]) x (List.mem_cons_of_mem a hx) hlt
    have hax : a.sequence < x.sequence := List.rel_of_pairwise_cons hes hx
    rcases List.mem_cons.1 hmem with rfl | hpre
    · exact absurd hax (lt_irrefl _)
    · exact hpre

/-- Nothing is missing before an entry of a first part of `es`. -/
theorem mem_of_initial {es xs : List CommandEntry} (hes : es.Pairwise fun a b => a.sequence < b.sequence)
    (hxs : xs <+: es) {pre post : List CommandEntry} {e x : CommandEntry} (hsplit : xs = pre ++ e :: post) (hx : x ∈ es)
    (hlt : x.sequence < e.sequence) : x ∈ pre := by
  obtain ⟨t, rfl⟩ := hxs
  rw [hsplit, List.append_assoc, List.cons_append] at hx hes
  rw [List.pairwise_append, List.pairwise_cons] at hes
  rcases List.mem_append.1 hx with hpre | hrest
  · exact hpre
  · rcases List.mem_cons.1 hrest with rfl | hpost
    · exact absurd hlt (lt_irrefl _)
    · exact absurd (hlt.trans (hes.2.1.1 x hpost)) (lt_irrefl _)

/-- A replay from right before a missing entry on comes to a later one first. -/
theorem mem_readable_of_replaysInOrder {es : List CommandEntry} (hes : Numbered es) {cl : CommandLog}
    (hsub : cl.readable.Sublist es) (h : ReplaysInOrder es cl) {x e : CommandEntry} (hx : x ∈ es) (he : e ∈ cl.readable)
    (hlt : x.sequence < e.sequence) : x ∈ cl.readable := by
  have hone : (1 : UInt64) ≤ x.sequence := by
    obtain ⟨i, hi, rfl⟩ := List.getElem_of_mem hx
    rw [UInt64.le_iff_toNat_le, hes.sequence_getElem hi]
    exact Nat.le_add_left 1 i
  have hfrom : ∀ y : UInt64, x.sequence - 1 < y ↔ x.sequence ≤ y := by
    intro y
    rw [UInt64.lt_iff_toNat_lt, UInt64.le_iff_toNat_le, UInt64.toNat_sub_of_le _ _ hone]
    have := UInt64.le_iff_toNat_le.1 hone
    change 1 ≤ x.sequence.toNat at this
    change x.sequence.toNat - 1 < y.toNat ↔ _
    omega
  have hhead := head?_replayTrace cl.partitionID (x.sequence - 1) OrdMap.empty cl.readable
  cases htrace : cl.replayTrace OrdMap.empty (x.sequence - 1) with
  | nil =>
    rw [CommandLog.replayTrace] at htrace
    rw [htrace, List.head?_nil, eq_comm, List.head?_eq_none_iff, List.filter_eq_nil_iff] at hhead
    exact absurd (decide_eq_true ((hfrom e.sequence).2 hlt.le)) (hhead e he)
  | cons y rest =>
    have hy : y ∈ cl.readable ∧ x.sequence ≤ y.sequence := by
      rw [CommandLog.replayTrace] at htrace
      rw [htrace, List.head?_cons, eq_comm] at hhead
      have hmem := List.mem_filter.1 (List.mem_of_mem_head? hhead)
      exact ⟨hmem.1, (hfrom y.sequence).1 (of_decide_eq_true hmem.2)⟩
    rcases hy.2.lt_or_eq with hless | heq
    · cases h OrdMap.empty (x.sequence - 1) [] y rest htrace x hx ((hfrom x.sequence).2 le_rfl) hless
    · rw [List.inj_on_of_nodup_map hes.nodup hx (hsub.subset hy.1) heq]
      exact hy.1

theorem replaysInOrder_iff_initial {es : List CommandEntry} (hes : Numbered es) {cl : CommandLog}
    (hsub : cl.readable.Sublist es) : ReplaysInOrder es cl ↔ cl.readable <+: es := by
  constructor
  · intro h
    refine prefix_of_inOrder hsub hes.pairwise fun pre e post hread x hx hlt => ?_
    have hmem : x ∈ cl.readable :=
      mem_readable_of_replaysInOrder hes hsub h hx (by rw [hread]; exact List.mem_append_right pre List.mem_cons_self) hlt
    exact mem_of_initial (hes.pairwise.sublist hsub) (List.prefix_refl _) hread hmem hlt
  · intro hpre db fromSeq pre e post htrace x hx hfrom hlt
    have hinitial : cl.replayTrace db fromSeq <+: es.filter fun e => fromSeq < e.sequence :=
      (replayTrace_initial cl.partitionID fromSeq db cl.readable).trans (hpre.filter _)
    exact mem_of_initial (hes.pairwise.sublist List.filter_sublist) hinitial htrace
      (List.mem_filter.2 ⟨hx, decide_eq_true hfrom⟩) hlt

/-- The entries from `fromSeq` on. -/
theorem Numbered.filter_le {es : List CommandEntry} (h : Numbered es) (fromSeq : UInt64) :
    (es.filter fun e => fromSeq ≤ e.sequence) = es.drop (fromSeq.toNat - 1) := by
  by_cases hzero : fromSeq.toNat = 0
  · rw [hzero, List.drop_zero]
    refine List.filter_eq_self.2 fun e _ => decide_eq_true ?_
    rw [UInt64.le_iff_toNat_le]
    omega
  · have hpred : (fromSeq - 1).toNat = fromSeq.toNat - 1 := by
      have hone : (1 : UInt64) ≤ fromSeq := UInt64.le_iff_toNat_le.2 (Nat.one_le_iff_ne_zero.2 hzero)
      rw [UInt64.toNat_sub_of_le _ _ hone]
      rfl
    have hsame : (fun e : CommandEntry => decide (fromSeq ≤ e.sequence)) = fun e => decide (fromSeq - 1 < e.sequence) := by
      funext e
      rw [decide_eq_decide, UInt64.le_iff_toNat_le, UInt64.lt_iff_toNat_lt, hpred]
      omega
    rw [hsame, h.filter_lt, hpred]

/-- **A scan of a first part** of the log skips nothing. -/
theorem noGap_fullScan {es : List CommandEntry} (hnum : Numbered es) {cl : CommandLog} (hpre : cl.readable <+: es)
    (fromSeq : UInt64) (limit : Nat) : NoGap es fromSeq (cl.readFromFullScan fromSeq limit) := by
  obtain ⟨t, ht⟩ := hpre
  have hread : Numbered cl.readable := by
    rw [← ht] at hnum
    exact hnum.of_append
  rw [readFromFullScan_eq, hread.filter_le]
  refine noGap_of_prefix (a := fromSeq.toNat - 1) hnum ?_ ?_
  · have htake := List.take_prefix limit (cl.readable.drop (fromSeq.toNat - 1))
    exact htake.trans (List.IsPrefix.drop ⟨t, ht⟩ _)
  · rintro ⟨e, he, rfl⟩
    obtain ⟨i, hi, rfl⟩ := List.getElem_of_mem he
    have := hnum.sequence_getElem hi
    omega

/-- A scan from the first entry on that skips nothing has found a first part of the log. -/
theorem prefix_of_noGap {es xs : List CommandEntry} (hnum : Numbered es) (hsub : xs.Sublist es) (h : NoGap es 1 xs) :
    xs <+: es := by
  cases xs with
  | nil => exact List.nil_prefix
  | cons x xs =>
    have hpos : 0 < es.length := by
      have := hsub.length_le
      rw [List.length_cons] at this
      omega
    have hfirst : ∃ e ∈ es, e.sequence = 1 :=
      ⟨es[0], List.getElem_mem hpos, UInt64.toNat_inj.1 (hnum.sequence_getElem hpos)⟩
    have hx : x.sequence = 1 := h.start hfirst x rfl
    obtain ⟨a, ha⟩ := h.consecutive
    have hxs : Numbered (x :: xs) := by
      unfold Numbered
      rw [ha]
      rw [List.map_cons, List.length_cons, List.range'_succ] at ha
      rw [← (List.cons.inj ha).1, hx]
      rfl
    exact prefix_of_numbered hnum hxs hsub.subset

/-- From the first entry on nothing is filtered out. -/
theorem fullScan_one {es : List CommandEntry} (hnum : Numbered es) {cl : CommandLog} (hsub : cl.readable.Sublist es) :
    cl.readFromFullScan 1 es.length = cl.readable := by
  have hall : (cl.readable.filter fun e => 1 ≤ e.sequence) = cl.readable := by
    refine List.filter_eq_self.2 fun e he => decide_eq_true ?_
    obtain ⟨i, hi, rfl⟩ := List.getElem_of_mem (hsub.subset he)
    rw [UInt64.le_iff_toNat_le, hnum.sequence_getElem hi]
    exact Nat.le_add_left 1 i
  rw [readFromFullScan_eq, hall, List.take_of_length_le hsub.length_le]

/-- A log that skips nothing from the first entry on, and finds there what a scan finds, holds a first part. -/
theorem prefix_of_noGap_readFrom {es : List CommandEntry} (hnum : Numbered es) {cl : CommandLog}
    (hsub : cl.readable.Sublist es) (hread : cl.readFrom 1 es.length = cl.readFromFullScan 1 es.length)
    (h : NoGap es 1 (cl.readFrom 1 es.length)) : cl.readable <+: es := by
  rw [hread, fullScan_one hnum hsub] at h
  exact prefix_of_noGap hnum hsub h

/-! ## Altered files -/

@[simp] theorem framesOf_nil : framesOf [] = [] := rfl

@[simp] theorem framesOf_cons (f : LogFile) (fs : List LogFile) :
    framesOf (f :: fs) = entryCodec.frames f.data ++ framesOf fs := rfl

@[simp] theorem framesOf_append (fs gs : List LogFile) : framesOf (fs ++ gs) = framesOf fs ++ framesOf gs := by
  simp [framesOf]

theorem framesOf_eq_nil {fs : List LogFile} : framesOf fs = [] ↔ ∀ f ∈ fs, entryCodec.frames f.data = [] := by
  simp [framesOf]

theorem Altered.frames {f g : LogFile} (h : Altered f g) : entryCodec.frames g.data <+: entryCodec.frames f.data :=
  h.detected.frames exact_entryCodec

/-- An altered directory holds a part of what was written, in order. -/
theorem sublist_framesOf {fs gs : List LogFile} (h : List.Forall₂ Altered fs gs) :
    (framesOf gs).Sublist (framesOf fs) := by
  induction h with
  | nil => exact List.Sublist.refl _
  | cons hfg _ ih => exact hfg.frames.sublist.append ih

theorem contained_of_append : ∀ {l l' fs gs : List LogFile}, l.length = l'.length →
    Contained (l ++ fs) (l' ++ gs) → Contained fs gs
  | [], [], _, _, _, h => h
  | _ :: _, [], _, _, hlen, _ => by cases hlen
  | [], _ :: _, _, _, hlen, _ => by cases hlen
  | _ :: l, _ :: l', _, _, hlen, h => contained_of_append (Nat.succ.inj hlen) h.2

/-- **The damage is contained** exactly if what can still be read is a first part of what was written. -/
theorem contained_iff_initial {fs gs : List LogFile} (h : List.Forall₂ Altered fs gs) (hnd : (framesOf fs).Nodup) :
    Contained fs gs ↔ framesOf gs <+: framesOf fs := by
  induction h with
  | nil => exact iff_of_true (by simp [Contained]) (List.prefix_refl _)
  | @cons f g fs gs hfg hrest ih =>
    rw [framesOf_cons, List.nodup_append] at hnd
    obtain ⟨-, hnd', hdisj⟩ := hnd
    rw [Contained, ih hnd', framesOf_cons, framesOf_cons]
    obtain ⟨lost, hlost⟩ := hfg.frames
    rw [← hlost, List.append_assoc, List.prefix_append_right_inj, List.self_eq_append_right, ← framesOf_eq_nil]
    cases lost with
    | nil => simp
    | cons y lost =>
      -- the first entry that is lost is not in a later file
      have hy : y ∉ framesOf gs := by
        intro hy
        refine hdisj y ?_ y ((sublist_framesOf hrest).subset hy) rfl
        rw [← hlost]
        simp
      constructor
      · rintro ⟨hnil | hnil, -⟩
        · cases hnil
        · rw [hnil]
          exact List.nil_prefix
      · intro hpre
        have hnil : framesOf gs = [] := by
          cases hgs : framesOf gs with
          | nil => rfl
          | cons z rest =>
            rw [hgs, List.cons_append, List.cons_prefix_cons] at hpre
            exact absurd (by rw [hgs, hpre.1]; exact List.mem_cons_self) hy
        exact ⟨.inr hnil, by rw [hnil]; exact List.nil_prefix⟩

/-- Reading a file from the start of an entry on, and then the files after it. -/
theorem prefix_of_contained {f g : LogFile} {l fs gs : List LogFile} (hfg : Altered f g)
    (hrest : List.Forall₂ Altered fs gs) (hok : ∀ e ∈ entryCodec.frames f.data, e.Ok) (hnd : (framesOf fs).Nodup)
    (hcont : Contained (f :: fs) (g :: gs)) {j : Nat} (hj : j ≤ (entryCodec.frames f.data).length) :
    entryCodec.frames (g.data.drop (entryCodec.flat ((entryCodec.frames f.data).take j)).length) ++ framesOf gs <+:
      (framesOf (l ++ f :: fs)).drop ((framesOf l).length + j) := by
  rw [framesOf_append, framesOf_cons, List.drop_length_add_append, List.drop_append_of_le_length hj]
  obtain ⟨hall | hnil, htail⟩ := hcont
  · have hdrop := exact_entryCodec.frames_drop (b := g.data) (by rw [hall]; exact hok) j
    rw [hall] at hdrop
    rw [hdrop, List.prefix_append_right_inj]
    exact (contained_iff_initial hrest hnd).1 htail
  · obtain ⟨k, hk⟩ := hfg.detected.frames_drop exact_entryCodec (j := j) rfl
    rw [hk, framesOf_eq_nil.2 hnil, List.append_nil]
    have htake := List.take_prefix k ((entryCodec.frames f.data).drop j)
    exact htake.trans (List.prefix_append _ _)

/-! ## The open log -/

section
variable {s : LogRun} {old : Layout} {cur : List CommandEntry}

/-- The place of an entry is in the buffer, behind the end of the current file, or at the start of a frame of a file. -/
theorem Shape.locate (h : Shape s old cur) {pos : LogPosition} {e : CommandEntry}
    (hat : Layout.At (old ++ [(s.log.current.fileNum, cur)]) pos e) :
    ∃ l f m, s.log.files = l ++ f :: m ∧ f.fileNum = pos.fileNum ∧
      ((m = [] ∧ f.data.length < pos.offset) ∨
        ∃ j, pos.offset = (entryCodec.flat ((entryCodec.frames f.data).take j)).length ∧
          j ≤ (entryCodec.frames f.data).length ∧ e.sequence.toNat = (framesOf l).length + j + 1) := by
  rcases h.place hat with ⟨hnum, hbuf⟩ | ⟨l, m, es₁, es₂, after, hfiles, hok, hoff, hentries⟩
  · exact ⟨s.log.older, s.log.current, [], rfl, hnum.symm, .inl ⟨rfl, hbuf⟩⟩
  · obtain ⟨l', f, m', hf, hl, hholds, -⟩ := forall₂_split hfiles.flip
    have hframes : entryCodec.frames f.data = es₁ ++ es₂ :=
      hholds.2.frames fun x (hx : x ∈ es₁ ++ es₂) => hok x (by
        rw [Layout.entries_append, Layout.entries_cons]
        exact List.mem_append_right _ (List.mem_append_left _ hx))
    have hbefore : framesOf l' = Layout.entries l :=
      frames_files hl.flip fun x hx => hok x (by
        rw [Layout.entries_append]
        exact List.mem_append_left _ hx)
    have hseq : e.sequence.toNat = (Layout.entries l ++ es₁).length + 1 := by
      have hnum := h.numbered
      rw [hentries, List.append_cons] at hnum
      exact hnum.of_append.last
    refine ⟨l', f, m', hf, hholds.1, .inr ⟨es₁.length, ?_, ?_, ?_⟩⟩
    · rw [hframes, List.take_left, hoff]
    · rw [hframes, List.length_append]
      exact Nat.le_add_right _ _
    · rw [hbefore, hseq, List.length_append]

theorem names_of_altered {fs gs : List LogFile} (h : List.Forall₂ Altered fs gs) :
    gs.map LogFile.fileNum = fs.map LogFile.fileNum := by
  induction h with
  | nil => rfl
  | cons hfg _ ih => rw [List.map_cons, List.map_cons, hfg.fileNum, ih]

/-- Of a stretch that begins after `fromSeq` nothing is filtered out. -/
theorem Numbered.take_filter_initial {es xs : List CommandEntry} (h : Numbered es) {a : Nat} (hxs : xs <+: es.drop a)
    {fromSeq : UInt64} (hfrom : fromSeq.toNat ≤ a + 1) (limit : Nat) :
    (xs.filter fun e => fromSeq ≤ e.sequence).take limit <+: es.drop a := by
  have hall : (xs.filter fun e => fromSeq ≤ e.sequence) = xs := by
    refine List.filter_eq_self.2 fun x hx => decide_eq_true ?_
    obtain ⟨i, hi, rfl⟩ := List.mem_drop_iff_getElem.1 (hxs.subset hx)
    have hseq := h.sequence_getElem (show a + i < es.length by omega)
    rw [UInt64.le_iff_toNat_le]
    omega
  rw [hall]
  have htake := List.take_prefix limit xs
  exact htake.trans hxs

/-- The open log on its altered files. -/
def CommandLog.onFiles (cl : CommandLog) (older : List LogFile) (current : LogFile) : CommandLog :=
  { cl with older := older, current := current }

variable {older : List LogFile} {current : LogFile}

theorem Shape.framesOf_initial (h : Shape s old cur) : framesOf s.log.files <+: s.entries := by
  obtain ⟨k, hk⟩ := h.readable
  rw [show framesOf s.log.files = s.log.readable from rfl, hk]
  exact List.take_prefix k _

theorem Shape.frames_ok (h : Shape s old cur) : ∀ e ∈ framesOf s.log.files, e.Ok :=
  fun e he => h.ok e (h.framesOf_initial.subset he)

theorem Shape.nodup_frames (h : Shape s old cur) : (framesOf s.log.files).Nodup :=
  (List.Nodup.of_map _ h.numbered.nodup).sublist h.framesOf_initial.sublist

/-- **An indexed read of altered files**, at the place of the entry `e`. -/
theorem Shape.readFromIndex_altered (h : Shape s old cur) (halt : List.Forall₂ Altered s.log.files (older ++ [current]))
    {pos : LogPosition} {e : CommandEntry} (hat : Layout.At (old ++ [(s.log.current.fileNum, cur)]) pos e)
    {fromSeq : UInt64} (hfrom : fromSeq ≤ e.sequence) (limit : Nat) :
    ∃ xs, (s.log.onFiles older current).readFromIndex pos fromSeq limit = .ok xs ∧
      (Contained s.log.files (older ++ [current]) → xs <+: s.entries.drop (e.sequence.toNat - 1)) ∧
      (e.sequence.toNat = 1 → xs = [] ∨ xs = (s.log.onFiles older current).readFromFullScan fromSeq limit) := by
  obtain ⟨l, f, m, hfiles, hnum, hplace⟩ := h.locate hat
  have hok := h.frames_ok
  have hnd := h.nodup_frames
  have hpre := h.framesOf_initial
  have hnames := h.names
  rw [hfiles] at halt hnames hok hnd hpre ⊢
  have hnames' := names_of_altered halt
  obtain ⟨l', g, m', hgs, hl, hfg, hm⟩ := forall₂_split halt
  rw [hgs] at hnames' ⊢
  have hdrop : (s.log.onFiles older current).files.dropWhile (fun f => f.fileNum ≠ pos.fileNum) = g :: m' := by
    change (older ++ [current]).dropWhile _ = _
    rw [hgs, ← hnum, ← hfg.fileNum]
    exact dropWhile_split (by rw [hnames']; exact hnames)
  refine ⟨_, readFromIndex_of_dropWhile hdrop fromSeq limit, ?_⟩
  rcases hplace with ⟨rfl, hbuf⟩ | ⟨j, hoff, hj, hseq⟩
  · -- the file ends before the place
    cases hm
    have hnil : g.data.drop pos.offset = [] := List.drop_of_length_le (by rw [hfg.length]; omega)
    rw [hnil, entryCodec.frames_of_none entryCodec.read_nil]
    simp
  · refine ⟨fun hcont => ?_, fun hone => .inr ?_⟩
    · have hstretch := (prefix_of_contained (l := l) hfg hm (fun x hx => hok x (by simp [hx])) (hnd.sublist (by simp))
        (contained_of_append hl.length_eq hcont) hj).trans (hpre.drop _)
      rw [← hoff, show (framesOf l).length + j = e.sequence.toNat - 1 by omega] at hstretch
      rw [UInt64.le_iff_toNat_le] at hfrom
      exact h.numbered.take_filter_initial hstretch (by omega) limit
    · have hbefore : framesOf l = [] := List.eq_nil_of_length_eq_zero (by omega)
      have hbefore' : framesOf l' = [] := List.sublist_nil.1 (hbefore ▸ sublist_framesOf hl)
      obtain rfl : j = 0 := by omega
      have hzero : pos.offset = 0 := hoff
      rw [readFromFullScan_eq, show (s.log.onFiles older current).readable = framesOf (older ++ [current]) from rfl, hgs,
        framesOf_append, hbefore', List.nil_append, framesOf_cons, hzero, List.drop_zero]
      rfl

/-- The entry at the place where a read from `fromSeq` on starts: the index is the one from before. -/
theorem Shape.startPos_altered (h : Shape s old cur) {fromSeq : UInt64} {pos : LogPosition}
    (hpos : (s.log.onFiles older current).startPos fromSeq = some pos) :
    ∃ e ∈ s.entries, Layout.At (old ++ [(s.log.current.fileNum, cur)]) pos e ∧ fromSeq ≤ e.sequence ∧
      ∀ x ∈ s.entries, x.sequence < e.sequence → x.sequence < fromSeq :=
  @startPos_entry (s.log.onFiles older current) _ _ h.index h.noOther _ _ hpos

/-- What can be read of the altered files is a first part of the log exactly if the damage is contained. -/
theorem Shape.initial_iff_contained (h : Shape s old cur) {gs : List LogFile}
    (halt : List.Forall₂ Altered s.log.files gs) : framesOf gs <+: s.entries ↔ Contained s.log.files gs := by
  rw [contained_iff_initial halt h.nodup_frames]
  exact ⟨fun hp => List.prefix_of_prefix_length_le hp h.framesOf_initial (sublist_framesOf halt).length_le,
    fun hp => hp.trans h.framesOf_initial⟩

/-- The first entry has the number 1. -/
theorem Numbered.toNat_first {es : List CommandEntry} (hnum : Numbered es) {e : CommandEntry} (he : e ∈ es)
    (hmin : ∀ x ∈ es, x.sequence < e.sequence → x.sequence < 1) : e.sequence.toNat = 1 := by
  obtain ⟨i, hi, rfl⟩ := List.getElem_of_mem he
  have hseq := hnum.sequence_getElem hi
  have hzero := hnum.sequence_getElem (show 0 < es.length by omega)
  by_contra hne
  have hlt := hmin es[0] (List.getElem_mem _) (by rw [UInt64.lt_iff_toNat_lt]; omega)
  rw [UInt64.lt_iff_toNat_lt, hzero] at hlt
  exact absurd hlt (lt_irrefl _)

/-- A read from the first entry on finds what a scan finds. -/
theorem Shape.readFrom_one (h : Shape s old cur) (halt : List.Forall₂ Altered s.log.files (older ++ [current]))
    (limit : Nat) :
    (s.log.onFiles older current).readFrom 1 limit = (s.log.onFiles older current).readFromFullScan 1 limit := by
  refine readFrom_eq_fullScan fun pos hpos => ?_
  obtain ⟨e, he, hat, hfrom, hsmall⟩ := h.startPos_altered hpos
  obtain ⟨xs, hread, -, hscan⟩ := h.readFromIndex_altered halt hat hfrom limit
  rw [hread]
  exact (hscan (h.numbered.toNat_first he hsmall)).imp (congrArg _) (congrArg _)

/-- **The open log** skips nothing exactly if the damage is contained. -/
theorem Shape.noGap_open_iff (h : Shape s old cur) (halt : List.Forall₂ Altered s.log.files (older ++ [current])) :
    (∀ fromSeq limit, NoGap s.entries fromSeq ((s.log.onFiles older current).readFrom fromSeq limit)) ↔
      Contained s.log.files (older ++ [current]) := by
  constructor
  · intro hall
    have hsub : (s.log.onFiles older current).readable.Sublist s.entries :=
      (sublist_framesOf halt).trans h.framesOf_initial.sublist
    exact (h.initial_iff_contained halt).1
      (prefix_of_noGap_readFrom h.numbered hsub (h.readFrom_one halt _) (hall 1 _))
  · intro hcont fromSeq limit
    have hpre : (s.log.onFiles older current).readable <+: s.entries := (h.initial_iff_contained halt).2 hcont
    have hscan := noGap_fullScan h.numbered hpre fromSeq limit
    unfold readFrom
    cases hpos : (s.log.onFiles older current).startPos fromSeq with
    | none => exact hscan
    | some pos =>
      obtain ⟨e, he, hat, hfrom, hsmall⟩ := h.startPos_altered hpos
      obtain ⟨xs, hread, hstretch, -⟩ := h.readFromIndex_altered halt hat hfrom limit
      simp only [hread]
      cases xs with
      | nil => exact hscan
      | cons x xs =>
        refine noGap_of_prefix h.numbered (hstretch hcont) ?_
        rintro ⟨y, hy, rfl⟩
        have heq : y.sequence = e.sequence := by
          refine le_antisymm hfrom (not_lt.1 fun hlt => ?_)
          exact absurd (hsmall y hy hlt) (lt_irrefl _)
        obtain ⟨i, hi, rfl⟩ := List.getElem_of_mem he
        have hseq := h.numbered.sequence_getElem hi
        rw [heq]
        omega

end

/-! ## The log opened on altered files -/

/-- The files as they are found, each with what decodes in it. -/
def found (files : List LogFile) : Layout := files.map fun f => (f.fileNum, entryCodec.frames f.data)

theorem entries_found (files : List LogFile) : (found files).entries = framesOf files := by
  simp [found, Layout.entries, framesOf, List.flatMap_map]

theorem fileHolds_found : ∀ files : List LogFile, List.Forall₂ FileHolds files (found files)
  | [] => .nil
  | f :: files => .cons ⟨rfl, exact_entryCodec.holds_frames f.data⟩ (fileHolds_found files)

section
variable {partitionID : UInt32} {files : List LogFile} {fileTime : Nat}

theorem index_newCommandLog (hok : ∀ e ∈ framesOf files, e.Ok) :
    (newCommandLog partitionID files fileTime).index =
      (Recovered.addFiles (found files) { index := OrdMap.empty, maxSeq := 0 }).index := by
  have hrec := recover_eq (fileHolds_found files) (by rwa [entries_found])
  rw [← hrec]
  rfl

/-- The entry at the place where a read of the opened log starts. -/
theorem startPos_newCommandLog (hok : ∀ e ∈ framesOf files, e.Ok)
    (hnum : (framesOf files).Pairwise fun a b => a.sequence < b.sequence) {fromSeq : UInt64} {pos : LogPosition}
    (hpos : (newCommandLog partitionID files fileTime).startPos fromSeq = some pos) :
    ∃ e ∈ framesOf files, (found files).At pos e ∧ fromSeq ≤ e.sequence ∧
      ∀ x ∈ framesOf files, x.sequence < e.sequence → x.sequence < fromSeq := by
  have hentries := entries_found files
  have hnd : ((found files).entries.map CommandEntry.sequence).Nodup := by
    rw [hentries, List.nodup_iff_pairwise_ne, List.pairwise_map]
    exact hnum.imp fun hlt => ne_of_lt hlt
  refine startPos_entry (fun e he => ?_) (fun seq hseq => ?_) hpos
  · rw [index_newCommandLog hok]
    exact get_addFiles hnd e (by rwa [hentries])
  · rw [index_newCommandLog hok, get_addFiles_of_notMem (by rwa [hentries])]
    rfl

/-- **A log opened on files with increasing numbers** finds through its index what a scan finds. -/
theorem readFrom_newCommandLog (hok : ∀ e ∈ framesOf files, e.Ok)
    (hnum : (framesOf files).Pairwise fun a b => a.sequence < b.sequence)
    (hnames : (files.map LogFile.fileNum).Pairwise (· < ·)) (htime : ∀ f ∈ files, f.fileNum < fileTime)
    (fromSeq : UInt64) (limit : Nat) :
    (newCommandLog partitionID files fileTime).readFrom fromSeq limit =
      (newCommandLog partitionID files fileTime).readFromFullScan fromSeq limit := by
  refine readFrom_eq_fullScan fun pos hpos => .inr ?_
  obtain ⟨e, -, ⟨es₁, es₂, hmem, hoff⟩, -, hsmall⟩ := startPos_newCommandLog hok hnum hpos
  obtain ⟨l, m, hlm⟩ := List.append_of_mem hmem
  have hall : List.Forall₂ FileHolds (newCommandLog partitionID files fileTime).files
      (l ++ (pos.fileNum, es₁ ++ e :: es₂) :: (m ++ [(fileTime, [])])) := by
    rw [← List.cons_append, ← List.append_assoc, ← hlm]
    exact List.rel_append (fileHolds_found files) (.cons ⟨rfl, Codec.holds_flat []⟩ .nil)
  have hsplit : framesOf files = (Layout.entries l ++ es₁) ++ e :: (es₂ ++ Layout.entries m) := by
    rw [← entries_found, hlm]
    simp
  refine readFromIndex_eq hall (names_concat hnames htime) (fun x hx => hok x ?_) hoff (fun x hx => ?_) limit
  · rw [hsplit]
    simpa using hx
  · rw [hsplit, List.pairwise_append] at hnum
    refine hsmall x ?_ (hnum.2.2 x hx e List.mem_cons_self)
    rw [hsplit]
    exact List.mem_append_left _ hx

end

theorem readable_newCommandLog (partitionID : UInt32) (files : List LogFile) (fileTime : Nat) :
    (newCommandLog partitionID files fileTime).readable = framesOf files := by
  change framesOf (files ++ [⟨fileTime, []⟩]) = framesOf files
  rw [framesOf_append, framesOf_cons, entryCodec.frames_of_none entryCodec.read_nil]
  simp

/-- A log that finds through its index what a scan finds skips nothing exactly if it finds a first part of the log. -/
theorem noGap_iff_initial {es : List CommandEntry} (hnum : Numbered es) {cl : CommandLog} (hsub : cl.readable.Sublist es)
    (hread : ∀ fromSeq limit, cl.readFrom fromSeq limit = cl.readFromFullScan fromSeq limit) :
    (∀ fromSeq limit, NoGap es fromSeq (cl.readFrom fromSeq limit)) ↔ cl.readable <+: es := by
  constructor
  · intro hall
    exact prefix_of_noGap_readFrom hnum hsub (hread 1 _) (hall 1 _)
  · intro hpre fromSeq limit
    rw [hread]
    exact noGap_fullScan hnum hpre fromSeq limit

/-- **Corruption is never skipped silently** exactly if the damage is contained: by `ReadFrom` and by `ReplayTo`, of the
open log and of one that is opened on the altered files. -/
theorem corruption_contained_iff {partitionID : UInt32} {fileTime : Nat} {as : List LogAct} {s : LogRun}
    (hsane : Along logStep Sane (LogRun.start partitionID fileTime) as)
    (hrun : run logStep (LogRun.start partitionID fileTime) as = some s) {older : List LogFile} {current : LogFile}
    (halt : List.Forall₂ Altered s.log.files (older ++ [current])) {fileTime' : Nat}
    (htime : ∀ f ∈ s.log.files, f.fileNum < fileTime') {cl : CommandLog}
    (hcl : cl = s.log.onFiles older current ∨ cl = newCommandLog partitionID (older ++ [current]) fileTime') :
    ((∀ fromSeq limit, NoGap s.entries fromSeq (cl.readFrom fromSeq limit)) ↔
      Contained s.log.files (older ++ [current])) ∧
    (ReplaysInOrder s.entries cl ↔ Contained s.log.files (older ++ [current])) := by
  obtain ⟨old, cur, h⟩ : LogInv s :=
    run_inv_along (fun _ _ _ hi hc hst => logInv_step hi hc hst) (logInv_start partitionID fileTime) hsane hrun
  have hsub : (framesOf (older ++ [current])).Sublist s.entries :=
    (sublist_framesOf halt).trans h.framesOf_initial.sublist
  have hprefix := h.initial_iff_contained halt
  have hread : cl.readable = framesOf (older ++ [current]) := by
    rcases hcl with rfl | rfl
    · rfl
    · exact readable_newCommandLog partitionID _ fileTime'
  refine ⟨?_, ?_⟩
  · rcases hcl with rfl | rfl
    · exact h.noGap_open_iff halt
    · rw [← hprefix, ← hread]
      refine noGap_iff_initial h.numbered (by rwa [hread]) (readFrom_newCommandLog ?_ ?_ ?_ ?_)
      · exact fun e he => h.ok e (hsub.subset he)
      · exact h.numbered.pairwise.sublist hsub
      · rw [names_of_altered halt]
        exact h.names
      · intro g hg
        have hmem := List.mem_map_of_mem (f := LogFile.fileNum) hg
        rw [names_of_altered halt] at hmem
        obtain ⟨f, hf, hnum⟩ := List.mem_map.1 hmem
        rw [← hnum]
        exact htime f hf
  · rw [← hprefix, ← hread]
    exact replaysInOrder_iff_initial h.numbered (by rwa [hread])

/-! ### Two files -/

instance (f g : LogFile) : Decidable (Altered f g) :=
  decidable_of_iff (g.fileNum = f.fileNum ∧ g.data.length = f.data.length ∧
      entryCodec.Detects (entryCodec.frames f.data) g.data)
    ⟨fun h => ⟨h.1, h.2.1, h.2.2⟩, fun h => ⟨h.fileNum, h.length, h.detected⟩⟩

instance Contained.decidable : ∀ fs gs : List LogFile, Decidable (Contained fs gs)
  | [], _ => isTrue (by simp [Contained])
  | _ :: _, [] => isTrue (by simp [Contained])
  | _ :: fs, _ :: gs =>
    have := Contained.decidable fs gs
    inferInstanceAs (Decidable (_ ∧ _))

/-- Two entries, a crash that loses nothing, and a third entry in a new file. -/
def twoFiles : List LogAct :=
  [.append 0 2 1 [1] [2], .append 0 2 1 [3] [4], .sync, .crash 62 3, .append 0 4 1 [5] [6], .sync]

/-- One byte of a file is changed. -/
def LogFile.change (f : LogFile) (i : Nat) (byte : UInt8) : LogFile := { f with data := f.data.set i byte }

/-- The value of the third entry is changed, in the last file. -/
theorem corruption_contained_last_file : ∃ s, run logStep (LogRun.start 7 1) twoFiles = some s ∧
    List.Forall₂ Altered s.log.files (s.log.older ++ [s.log.current.change 26 9]) ∧
    (∀ fromSeq limit,
      NoGap s.entries fromSeq ((s.log.onFiles s.log.older (s.log.current.change 26 9)).readFrom fromSeq limit)) ∧
    ReplaysInOrder s.entries (s.log.onFiles s.log.older (s.log.current.change 26 9)) := by
  obtain ⟨s, hrun, halt, hcont, htime⟩ : ∃ s, run logStep (LogRun.start 7 1) twoFiles = some s ∧
      (List.Forall₂ Altered s.log.files (s.log.older ++ [s.log.current.change 26 9]) ∧
        Contained s.log.files (s.log.older ++ [s.log.current.change 26 9]) ∧ ∀ f ∈ s.log.files, f.fileNum < 5) :=
    exists_run (by decide +kernel)
  have h := corruption_contained_iff (by decide +kernel) hrun halt htime (.inl rfl)
  exact ⟨s, hrun, halt, h.1.2 hcont, h.2.2 hcont⟩

/-- The value of the second entry is changed, and the log opened on what is there. -/
def reopenedDamaged (s : LogRun) : CommandLog :=
  newCommandLog 7 (s.log.older.map (fun f => f.change 57 9) ++ [s.log.current]) 5

/-- **Bug**: `ReadFrom(1)` returns the first and the third entry, on the open log and on one opened on the files, and
`ReplayTo` applies these two and reports no error. -/
theorem corruption_skipped : ∃ s, run logStep (LogRun.start 7 1) twoFiles = some s ∧
    (s.entries.map (fun e => e.sequence) = [1, 2, 3] ∧
      List.Forall₂ Altered s.log.files (s.log.older.map (fun f => f.change 57 9) ++ [s.log.current]) ∧
      ((s.log.onFiles (s.log.older.map fun f => f.change 57 9) s.log.current).readFrom 1 10).map (fun e => e.sequence) =
        [1, 3] ∧
      ((reopenedDamaged s).readFrom 1 10).map (fun e => e.sequence) = [1, 3] ∧
      ((reopenedDamaged s).replayTrace OrdMap.empty 0).map (fun e => e.sequence) = [1, 3] ∧
      ((reopenedDamaged s).replayTo OrdMap.empty 0).1.entries = [([1], [2]), ([5], [6])] ∧
      ((reopenedDamaged s).replayTo OrdMap.empty 0).2.toOption = some 3) :=
  exists_run (by decide +kernel)

end RocksKV.Storage
