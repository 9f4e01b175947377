import Mathlib.Algebra.BigOperators.Option
import NekOS.Fat32.Formatting

/-!
# Sessions with the file server

What holds after any number of requests of clients that keep to what the file store allows: the server has
answered as a file store, its table is in order, and what has been written to a file is read back until another
request names the file.
-/

namespace NekOS

namespace Fs

namespace Fat32Fs

variable {fs : Fat32Fs} {d d' : Disk} {own : Option ℕ → List ℕ} {s s' : Store} {a : ℕ} {f : Content}
  {clients : Clients Request Reply} {past : List (Request × Reply)}

/-! ### What a disk shows of a store -/

/-- What the server finds and reads on a disk is what the store has. -/
structure Shows (fs : Fat32Fs) (d : Disk) (s : Store) : Prop where
  names : ∀ name, ∃ r, fs.findEntry d fs.rootCluster name = some r ∧
    s.lookup name = r.map fun q => ⟨q.1.firstCluster, q.1.fileSize, q.1.attr⟩
  files : ∀ a f, s.file a = some f → ∀ offset size, ∃ n buf,
    fs.readFile d a (wrap32 offset) (2 ^ 32 - 1) (min (wrap32 size) ipcBufferSize) Bytes.zero = some (n, buf) ∧
    n = (if wrap32 offset < f.length then
      min (min (wrap32 size) ipcBufferSize) (f.length - fs.transferStart (wrap32 offset)) else 0) ∧
    ∀ i < n, buf i = f.byte (fs.transferStart (wrap32 offset) + i)

/-- A disk shows the store that it represents. -/
lemma Represents.shows (h : fs.Represents d own s) : fs.Shows d s := by
  refine ⟨fun name => ?_, fun a f ha offset size => h.reads ha offset size⟩
  rcases h.find_or_missing name with ⟨hnone, hfind, -⟩ | ⟨e, text, hfind, hsome⟩
  · exact ⟨none, hfind, hnone⟩
  · exact ⟨some (e, text), hfind, hsome⟩

/-- **The file server is a file store.**  It answers all requests of clients that respect the store as the
store may answer them, and what it finds and reads afterwards is what the store has. -/
theorem file_store_refined (h : fs.Stores d s) (hclients : (Store.service fs).Respects clients s) (n : ℕ) :
    ∃ past d' s', converse fs.serve clients n [] d = some (past, d') ∧ past.length = n ∧
      (Store.service fs).Talk clients s past s' ∧ s'.Valid ∧ fs.Shows d' s' := by
  obtain ⟨past, d', s', hrun, hlen, htalk, hs, own, hrep⟩ := (serve_implements fs).converse h hclients n
  exact ⟨past, d', s', hrun, hlen, htalk, hs, hrep.shows⟩

/-- The entries of the table are free on a zeroed RAM disk. -/
lemma zero_entry (c : ℕ) : formattedFs.fatEntry Bytes.zero c = fat32Free := by
  have hzero : Bytes.zero.load (formattedFs.fatAddr c) 4 = 0 := rfl
  rw [fatEntry, hzero]
  rfl

/-- It represents the store without files after formatting. -/
lemma blank_represents : formattedFs.Represents (formatted Bytes.zero) blankOwn blank :=
  formatted_represents fun c _ _ => zero_entry c

/-- Clients that create a file again and again. -/
def creating : Clients Request Reply := fun _ => .createOpen "/A".toList

/-- They respect every store. -/
lemma creating_respects (s : Store) : (Store.service fs).Respects creating s :=
  fun _ _ _ => ⟨"A".toList, ⟨by decide, by decide, by decide⟩, fun _ => ⟨by decide +kernel, by decide +kernel⟩⟩

/-- The theorem for them. -/
theorem file_store_refined_sample : ∃ past d' s',
    converse formattedFs.serve creating 2 [] (formatted Bytes.zero) = some (past, d') ∧ past.length = 2 ∧
      (Store.service formattedFs).Talk creating blank past s' ∧ s'.Valid ∧ formattedFs.Shows d' s' :=
  file_store_refined ⟨blank_valid, blankOwn, blank_represents⟩ (creating_respects blank) 2

/-! ### The table -/

/-- A table in order: the clusters in use are the clusters of the root directory and of the files, each of them
belongs to one chain, and the chains have ends.  The names of the directory are different, and its entries have
chains. -/
structure InOrder (fs : Fat32Fs) (d : Disk) (own : Option ℕ → List ℕ) : Prop where
  chains : ∀ o, own o ≠ [] → Chain (fs.link d) (o.getD fs.rootCluster) (own o) ∧ (own o).Nodup
  root : own none ≠ []
  apart : ∀ o o', o ≠ o' → (own o).Disjoint (own o')
  free : ∀ c, fs.Allocatable c → (fs.fatEntry d c = fat32Free ↔ ∀ o, c ∉ own o)
  total : (fs.freeClusters d).length + ((own none).length +
    ∑ a ∈ Finset.range fs.totalClusters, (own (some a)).length) = fs.totalClusters - 2
  names : (fs.listing d (own none)).Pairwise fun q r => (view q).1 ≠ (view r).1
  entries : ∀ q ∈ fs.listing d (own none), 2 ≤ q.2.1.firstCluster → own (some q.2.1.firstCluster) ≠ []
  firsts : (fs.listing d (own none)).Pairwise fun q r =>
    2 ≤ q.2.1.firstCluster → q.2.1.firstCluster ≠ r.2.1.firstCluster

/-- The clusters that are free and those that have owners are all of them. -/
lemma Owned.total (h : fs.Owned d own) : (fs.freeClusters d).length + ((own none).length +
    ∑ a ∈ Finset.range fs.totalClusters, (own (some a)).length) = fs.totalClusters - 2 := by
  have hnodup : ∀ o, (own o).Nodup := fun o => by
    by_cases ho : own o = []
    · rw [ho]
      exact List.nodup_nil
    · exact (h.chain o ho).nodup
  have hos : ∀ o, own o ≠ [] → o ∈ Finset.insertNone (Finset.range fs.totalClusters) := fun o ho => by
    cases o with
    | none => exact Finset.none_mem_insertNone
    | some a =>
      obtain ⟨t, ht⟩ := h.file_cons ho
      exact Finset.some_mem_insertNone.mpr (Finset.mem_range.mpr (h.range _ a (ht ▸ List.mem_cons_self ..)).2)
  have hused : ∀ c, c ∈ (List.range' 2 (fs.totalClusters - 2)).filter (fun c => !decide (fs.fatEntry d c = fat32Free)) ↔
      fs.IsCluster c ∧ fs.fatEntry d c ≠ fat32Free := fun c => by
    rw [List.mem_filter, List.mem_range'_1, Bool.not_eq_true', decide_eq_false_iff_not]
    constructor
    · exact fun ⟨hc, hne⟩ => ⟨⟨hc.1, by omega⟩, hne⟩
    · intro hc
      obtain ⟨o, ho⟩ := (h.divides.used_iff c).mp hc
      obtain ⟨hge, hlt⟩ := h.range o c ho
      exact ⟨⟨hge, by omega⟩, hc.2⟩
  have hcount := h.divides.length_eq hnodup hos ((List.nodup_range' ..).filter _) hused
  rw [Finset.sum_insertNone] at hcount
  rw [← hcount, freeClusters, ← List.length_eq_length_filter_add, List.length_range']

/-- The table of a disk that represents a store. -/
lemma Represents.inOrder (h : fs.Represents d own s) (hs : s.Valid) : fs.InOrder d own := by
  have hnames := hs.names
  have hfirsts := hs.firsts
  rw [h.dir, List.pairwise_map] at hnames hfirsts
  refine ⟨fun o ho => ⟨h.owned.chain o ho, (h.owned.chain o ho).nodup⟩, h.owned.root, h.owned.divides.apart,
    fun c hc => ?_, h.owned.total, hnames, fun q hq hge => ?_, hfirsts⟩
  · have hcluster : fs.IsCluster c := ⟨hc.1, by have := hc.2; omega⟩
    constructor
    · exact fun hfree o ho => (h.owned.divides.used_of_mem ho).2 hfree
    · intro hnone
      by_contra hused
      obtain ⟨o, ho⟩ := (h.owned.divides.used_iff c).mp ⟨hcluster, hused⟩
      exact hnone o ho
  · have hfile := hs.files (view q) (h.dir ▸ List.mem_map_of_mem hq) hge
    exact fun hnil => hfile (h.file_eq_none.mpr hnil)

/-! ### Reading what has been written -/

/-- Clients that do not name a file. -/
def Spares (fs : Fat32Fs) (clients : Clients Request Reply) (s : Store) (a : ℕ) : Prop :=
  ∀ past s', (Store.service fs).Talk clients s past s' → ¬ s'.Names a (clients past)

/-- A file that clients do not name is kept. -/
lemma Spares.file_kept (h : fs.Spares clients s a) (ha : s.file a = some f)
    (htalk : (Store.service fs).Talk clients s past s') : s'.file a = some f := by
  exact htalk.invariant (I := fun t : Store => t.file a = some f)
    (P := fun (t : Store) request => ¬ t.Names a request) h
    (fun _ _ _ _ hfile hnot hstep => Store.Step.file_kept hstep hfile hnot) ha

/-- What writing to a file is for: after any number of requests of clients that do not name the file the bytes
are read back. -/
def WritesBack (fs : Fat32Fs) (d : Disk) (cluster offset len : ℕ) (buf : Bytes) : Prop :=
  ∃ n last d₁ s₁, fs.serve d (.write cluster offset len buf) = some (⟨fsOk, n, last, 0⟩, d₁) ∧
    fs.Stores d₁ s₁ ∧ ∀ clients, (Store.service fs).Respects clients s₁ →
      fs.Spares clients s₁ (wrap32 cluster) → ∀ m, ∃ past d', converse fs.serve clients m [] d₁ = some (past, d') ∧
        ∀ size, ∃ k buf', fs.readFile d' (wrap32 cluster) (wrap32 offset) (2 ^ 32 - 1)
            (min (wrap32 size) ipcBufferSize) Bytes.zero = some (k, buf') ∧
          min n (min (wrap32 size) ipcBufferSize) ≤ k ∧ ∀ i < min n k, buf' i = buf i

/-- **What has been written is read back**, whatever other clients do in the meantime, as long as they do not
name the file. -/
theorem writes_read_back (h : fs.Stores d s) {cluster : ℕ} (hfile : s.file (wrap32 cluster) ≠ none)
    (offset len : ℕ) (buf : Bytes) : fs.WritesBack d cluster offset len buf := by
  obtain ⟨hs, own, hrep⟩ := h
  obtain ⟨f, ha⟩ := Option.ne_none_iff_exists'.mp hfile
  obtain ⟨hne, -⟩ := hrep.chain_of_file ha
  have hspc := hrep.owned.sound.spc_lt
  obtain ⟨n, last, d₁, own₁, f', free, hrun, hwrote, hrep₁⟩ := hrep.wrote ha (wrap32 offset) len buf
  have hge : 2 ≤ wrap32 cluster := by
    obtain ⟨t, ht⟩ := hrep.owned.file_cons hne
    exact (hrep.owned.range _ _ (ht ▸ List.mem_cons_self ..)).1
  have hfile₁ : (s.put (wrap32 cluster) (some f') free).file (wrap32 cluster) = some f' :=
    Function.update_self ..
  refine ⟨n, last, d₁, _, ?_, ⟨hs.put_some .., own₁, hrep₁⟩, fun clients hclients hspares m => ?_⟩
  · rw [serve, serveWrite, if_neg (by omega)]
    dsimp only
    rw [hrun, Option.map_some]
  obtain ⟨past, d', s', hconverse, -, htalk, -, hshows⟩ :=
    file_store_refined ⟨hs.put_some .., own₁, hrep₁⟩ hclients m
  refine ⟨past, d', hconverse, fun size => ?_⟩
  obtain ⟨k, buf', hread, hk, hbytes⟩ := hshows.files _ _ (hspares.file_kept hfile₁ htalk) offset size
  obtain ⟨-, -, hstart⟩ := transferStart_spec hspc (wrap32 offset)
  have hle : wrap32 offset ≤ fs.transferStart (wrap32 offset) := by
    have := Nat.div_add_mod' (wrap32 offset) fs.clusterSize
    omega
  refine ⟨k, buf', hread, ?_, fun i hi => ?_⟩
  · by_cases hn : n = 0
    · omega
    · have hcovers := hwrote.covers (Nat.pos_of_ne_zero hn)
      rw [hk, if_pos (by omega)]
      omega
  · rw [hbytes i (by omega), hwrote.byte, landed, if_pos (by omega), Nat.add_sub_cancel_left]

/-- The theorem for a new file. -/
theorem writes_read_back_sample :
    formattedFs.WritesBack (formattedFs.allocated (formatted Bytes.zero) 3) 3 0 3 (Bytes.zero.set 0 7) := by
  have hfree : formattedFs.freeClusters (formatted Bytes.zero) = 3 :: List.range' 4 8092 := by
    rw [formatted_free fun c _ _ => zero_entry c, List.range'_succ]
  obtain ⟨hrep, -⟩ := blank_represents.made hfree
  refine writes_read_back ⟨blank_valid.put_some .., _, hrep⟩ ?_ 0 3 _
  rw [Store.put]
  exact Option.some_ne_none _

end Fat32Fs

end Fs

end NekOS
