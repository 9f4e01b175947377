import NekOS.Fat32.Directory
import NekOS.Fat32.Table

/-!
# Walking a directory

What `walk_dir` visits does not depend on the callback.  The loops over the sectors of a chain end where the
chain ends or the body returns, and they do not end if neither happens.
-/

namespace NekOS

namespace Fs

namespace Fat32Fs

/-- The entries that `walk_dir` visits, with its result. -/
def visited (fs : Fat32Fs) (d : Disk) (dirCluster : ℕ) : Option (Bool × List Found) :=
  fs.walkDir d dirCluster (fun e name es => es ++ [(e, name)]) []

variable {fs : Fat32Fs} {d : Disk}

/-! ### The callback -/

/-- What the loops over a chain do at the end of a cluster: they go on with the next one, or return. -/
def followLink {ρ σ : Type*} (fs : Fat32Fs) (disk : σ → Disk) (result : σ → ρ) (cluster : ℕ) (s : σ) :
    Flow (Option ρ) (ℕ × σ) :=
  match fs.fatNext (disk s) cluster with
  | none => .ret none
  | some next =>
    match validLink next with
    | some next => .next (next, s)
    | none => .ret (some (result s))

/-- `walk_dir` in terms of `followLink`. -/
lemma walkDir_eq {σ : Type*} (d : Disk) (dirCluster : ℕ) (f : DirEntry → List UInt8 → σ → σ) (s : σ) :
    fs.walkDir d dirCluster f s = (fs.forSectors (walkSector d f)
      (fs.followLink (fun _ => d) fun s => (true, s.2)) dirCluster (Lfn.init, s)).join :=
  rfl

/-- A loop over sectors whose rounds follow those of another one. -/
lemma forSectors_map {ρ ρ' σ τ : Type*} {h : ρ → ρ'} {g : σ → τ} {body : ℕ → σ → Flow ρ σ}
    {body' : ℕ → τ → Flow ρ' τ} {next : ℕ → σ → Flow ρ (ℕ × σ)} {next' : ℕ → τ → Flow ρ' (ℕ × τ)}
    (hbody : ∀ sector s, body' sector (g s) = (body sector s).map h g)
    (hnext : ∀ c s, next' c (g s) = (next c s).map h fun t => (t.1, g t.2)) (cluster : ℕ) (s : σ) :
    fs.forSectors body' next' cluster (g s) = (fs.forSectors body next cluster s).map h := by
  refine Flow.loop_map (g := fun t : ℕ × σ => (t.1, g t.2)) (fun c => ?_) loopRounds (cluster, s)
  dsimp only
  rw [Flow.forEach_map (fun i _ s => hbody _ s) c.2]
  cases Flow.forEach (fun i => body (wrap (fs.clusterToSector c.1 + i))) (List.range fs.spc) c.2 with
  | ret r => rfl
  | next t => exact hnext c.1 t

/-- What a callback makes of a list of entries. -/
def foldEntries {σ : Type*} (f : DirEntry → List UInt8 → σ → σ) (s : σ) (es : List Found) : σ :=
  es.foldl (fun s e => f e.1 e.2 s) s

/-- The callback at one slot. -/
lemma walkSlot_map {σ : Type*} (f : DirEntry → List UInt8 → σ → σ) (s : σ) (buf : Bytes) (i : ℕ)
    (t : Lfn × List Found) :
    walkSlot f buf i (t.1, foldEntries f s t.2) =
      (walkSlot (fun e name es => es ++ [(e, name)]) buf i t).map
        (Option.map fun r => (r.1, foldEntries f s r.2)) fun t => (t.1, foldEntries f s t.2) := by
  unfold walkSlot
  dsimp only
  split_ifs
  · rfl
  · rfl
  · rfl
  · rw [Flow.map]
    unfold foldEntries
    rw [List.foldl_append]
    rfl

/-- **Walking.**  `walk_dir` calls the callback for each of the entries that are visited. -/
theorem walkDir_eq_visited {σ : Type*} (d : Disk) (dirCluster : ℕ) (f : DirEntry → List UInt8 → σ → σ)
    (s : σ) : fs.walkDir d dirCluster f s =
      (fs.visited d dirCluster).map fun r => (r.1, foldEntries f s r.2) := by
  have hsector : ∀ sector (t : Lfn × List Found), walkSector d f sector (t.1, foldEntries f s t.2) =
      (walkSector d (fun e name es => es ++ [(e, name)]) sector t).map
        (Option.map fun r => (r.1, foldEntries f s r.2)) fun t => (t.1, foldEntries f s t.2) := by
    intro sector t
    rw [walkSector, walkSector]
    cases diskRead d sector with
    | none => rfl
    | some o =>
      cases o with
      | none => rfl
      | some buf =>
        exact Flow.forEach_map (g := fun t : Lfn × List Found => (t.1, foldEntries f s t.2))
          (fun i _ t => walkSlot_map f s buf i t) t
  have hnext : ∀ c (t : Lfn × List Found),
      fs.followLink (fun _ => d) (fun s => (true, s.2)) c (t.1, foldEntries f s t.2) =
      (fs.followLink (fun _ => d) (fun s => (true, s.2)) c t).map
        (Option.map fun r => (r.1, foldEntries f s r.2)) fun u => (u.1, u.2.1, foldEntries f s u.2.2) := by
    intro c t
    unfold followLink
    cases fs.fatNext d c with
    | none => rfl
    | some next =>
      dsimp only
      cases validLink next with
      | none => rfl
      | some next => rfl
  rw [visited, walkDir_eq, walkDir_eq, ← Option.join_map_eq_map_join]
  exact congrArg Option.join (forSectors_map
    (g := fun t : Lfn × List Found => (t.1, foldEntries f s t.2)) hsector hnext dirCluster (Lfn.init, []))

end Fat32Fs

end Fs

end NekOS
