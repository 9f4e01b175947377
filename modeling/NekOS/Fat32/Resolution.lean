import NekOS.Fat32.Directory
import NekOS.Fat32.Reading

/-!
# Resolving paths

A path denotes what the walk over its components finds.  `resolve_path` is that walk, except for its test
whether a file is the last component: it looks for the text of the component in the whole path and not at the
position of the component.
-/

namespace NekOS

namespace Fs

/-- The components of a path. -/
def components (path : Str) : List Str := (path.splitOn '/').filter (· ≠ [])

/-- A path ends with a slash. -/
def trailing (path : Str) : Bool := path.getLast? = some '/'

/-- The walk over the components of a path.  What a slash follows has to be a directory. -/
def walkComponents (find : ℕ → Str → Option (Option Found)) (slash : Bool) :
    ℕ → Option Found → List Str → Option (Option Found)
  | _, last, [] => some last
  | cluster, _, component :: rest =>
    match find cluster component with
    | none => none
    | some none => some none
    | some (some r) =>
      if r.1.isDirectory then walkComponents find slash r.1.firstCluster (some r) rest
      else if rest ≠ [] ∨ slash then some none
      else some (some r)

/-- The text behind the first occurrence of another text has a slash. -/
def SlashAfter (component path : Str) : Prop :=
  ∃ pos, Str.find component path = some pos ∧ '/' ∈ path.drop (pos + component.length)

/-! ### Text -/

/-- A text occurs for the first time not behind any of its occurrences. -/
lemma find_le (pat pre suf : Str) : ∃ pos ≤ pre.length, Str.find pat (pre ++ pat ++ suf) = some pos := by
  have hocc : pat.isPrefixOf ((pre ++ pat ++ suf).drop pre.length) = true := by
    rw [List.append_assoc, List.drop_left, List.isPrefixOf_iff_prefix]
    exact List.prefix_append _ _
  have hmem : pre.length ∈ List.range ((pre ++ pat ++ suf).length + 1) := by
    rw [List.mem_range, List.length_append, List.length_append, Nat.lt_succ_iff, Nat.add_assoc]
    exact Nat.le_add_right _ _
  cases hfind : Str.find pat (pre ++ pat ++ suf) with
  | none =>
    have hnone := List.find?_eq_none.mp hfind _ hmem
    exact absurd hocc hnone
  | some pos =>
    obtain ⟨-, -, hfirst⟩ := List.find?_range_eq_some.mp hfind
    refine ⟨pos, Nat.le_of_not_lt fun hlt => ?_, rfl⟩
    have := hfirst _ hlt
    rw [hocc] at this
    cases this

/-- A slash behind an occurrence of a text is behind its first occurrence. -/
lemma slashAfter_of (pat pre : Str) {suf : Str} (h : '/' ∈ suf) : SlashAfter pat (pre ++ pat ++ suf) := by
  obtain ⟨pos, hle, hfind⟩ := find_le pat pre suf
  refine ⟨pos, hfind, ?_⟩
  have hdrop : (pre ++ pat ++ suf).drop (pre.length + pat.length) = suf := by
    rw [← List.length_append, List.drop_left]
  have hsub : (pre ++ pat ++ suf).drop (pre.length + pat.length) ⊆
      (pre ++ pat ++ suf).drop (pos + pat.length) := by
    rw [show pre.length + pat.length = pos + pat.length + (pre.length - pos) by omega, ← List.drop_drop]
    exact List.drop_subset _ _
  exact hsub (by rwa [hdrop])

/-- The parts between the slashes have no slashes. -/
lemma splitOn_noSlash (path : Str) : ∀ part ∈ path.splitOn '/', '/' ∉ part := by
  induction path with
  | nil =>
    intro part hpart
    rw [List.splitOn_nil, List.mem_singleton] at hpart
    rw [hpart]
    exact List.not_mem_nil
  | cons c path ih =>
    intro part hpart
    rw [List.splitOn_cons_eq_if_modifyHead] at hpart
    by_cases hc : c = '/'
    · rw [if_pos (by simpa using hc)] at hpart
      rcases List.mem_cons.mp hpart with rfl | hpart
      · exact List.not_mem_nil
      · exact ih part hpart
    · rw [if_neg (by simpa using hc)] at hpart
      cases hparts : path.splitOn '/' with
      | nil => exact absurd hparts (List.splitOn_ne_nil _ _)
      | cons first parts =>
        rw [hparts] at hpart ih
        rcases List.mem_cons.mp hpart with rfl | hpart
        · have hfirst := ih first (List.mem_cons_self ..)
          simp [hfirst, Ne.symm hc]
        · exact ih part (List.mem_cons_of_mem _ hpart)

/-- Between empty parts there are only slashes. -/
lemma intercalate_empty {parts : List Str} (h : ∀ part ∈ parts, part = []) :
    ∀ c ∈ ['/'].intercalate parts, c = '/' := by
  induction parts with
  | nil => exact fun c hc => by cases hc
  | cons part rest ih =>
    intro c hc
    obtain ⟨rfl, hrest⟩ := List.forall_mem_cons.mp h
    cases rest with
    | nil =>
      rw [List.intercalate_singleton] at hc
      cases hc
    | cons next rest =>
      rw [List.intercalate_cons_cons, List.nil_append, List.singleton_append] at hc
      rcases List.mem_cons.mp hc with rfl | hc
      · rfl
      · exact ih hrest c hc

/-- A path that does not start with a slash has a component. -/
lemma components_ne_nil {c : Char} {path : Str} (h : c ≠ '/') : components (c :: path) ≠ [] := by
  rw [components, List.splitOn_cons_eq_if_modifyHead, if_neg (by simpa using h)]
  cases hparts : path.splitOn '/' with
  | nil => exact absurd hparts (List.splitOn_ne_nil _ _)
  | cons first parts => simp

/-- What is left of a path without its first slashes has a component. -/
lemma components_dropWhile_ne_nil {path : Str} (h : path.dropWhile (· = '/') ≠ []) :
    components (path.dropWhile (· = '/')) ≠ [] := by
  induction path with
  | nil => exact absurd rfl h
  | cons c path ih =>
    by_cases hc : c = '/'
    · rw [List.dropWhile_cons_of_pos (by simpa using hc)] at h ⊢
      exact ih h
    · rw [List.dropWhile_cons_of_neg (by simpa using hc)]
      exact components_ne_nil hc

/-- Slashes at the start of a path do not matter. -/
lemma components_dropWhile (path : Str) : components (path.dropWhile (· = '/')) = components path := by
  induction path with
  | nil => rfl
  | cons c path ih =>
    by_cases hc : c = '/'
    · have hsplit : (c :: path).splitOn '/' = [] :: path.splitOn '/' := by
        rw [List.splitOn_cons_eq_if_modifyHead, if_pos (by simpa using hc)]
      rw [List.dropWhile_cons_of_pos (by simpa using hc), ih, components, components, hsplit,
        List.filter_cons_of_neg (by simp)]
    · rw [List.dropWhile_cons_of_neg (by simpa using hc)]

/-- Nor do they matter for the slash at the end, if there is something else. -/
lemma trailing_dropWhile {path : Str} (h : path.dropWhile (· = '/') ≠ []) :
    trailing (path.dropWhile (· = '/')) = trailing path := by
  have hlast : ∀ pre suf : Str, suf ≠ [] → trailing (pre ++ suf) = trailing suf := fun pre suf hsuf => by
    rw [trailing, trailing, List.getLast?_append_of_ne_nil _ hsuf]
  conv_rhs => rw [← List.takeWhile_append_dropWhile (p := (· = '/')) (l := path)]
  exact (hlast _ _ h).symm

namespace Fat32Fs

/-- What a path denotes: the entry that the walk over its components finds, from the root directory on. -/
def denotes (fs : Fat32Fs) (d : Disk) (path : Str) : Option (Option Found) :=
  walkComponents (fs.findEntry d) (trailing path) fs.rootCluster (some (fs.rootEntry, [0x2F]))
    (components path)

/-- The result of the walk is a file, and a slash follows the first occurrence of its component. -/
def Misread (path : Str) (comps : List Str) (result : Option (Option Found)) : Prop :=
  ∃ component r, comps.getLast? = some component ∧ result = some (some r) ∧ r.1.isDirectory = false ∧
    SlashAfter component path

/-- The result of the loop of `resolve_path`. -/
def loopResult (x : Flow (Option (Option Found)) (ℕ × Option Found)) : Option (Option Found) :=
  match x with
  | .ret r => r
  | .next s => some s.2

variable {fs : Fat32Fs} {d : Disk}

/-- With a component the entry that was found before does not matter. -/
lemma walkComponents_last {find : ℕ → Str → Option (Option Found)} {slash : Bool} {cluster : ℕ}
    {comps : List Str} (last last' : Option Found) (h : comps ≠ []) :
    walkComponents find slash cluster last comps = walkComponents find slash cluster last' comps := by
  cases comps with
  | nil => exact absurd rfl h
  | cons component rest => rfl

/-- The loop of `resolve_path` over the parts of a path that are left: it is the walk over their components,
or the result of the walk is misread. -/
lemma resolveComponents (fs : Fat32Fs) (path : Str) (parts : List Str) (hne : parts ≠ [])
    (hslash : ∀ part ∈ parts, '/' ∉ part) (pre : Str) (cluster : ℕ) (last : Option Found)
    (hpath : path = pre ++ ['/'].intercalate parts) :
    let walked := walkComponents (fs.findEntry d) (trailing path) cluster last (parts.filter (· ≠ []))
    (loopResult (Flow.forEach (fs.resolveComponent d path) parts (cluster, last)) = walked ∧
        ¬ Misread path (parts.filter (· ≠ [])) walked) ∨
      (loopResult (Flow.forEach (fs.resolveComponent d path) parts (cluster, last)) = some none ∧
        Misread path (parts.filter (· ≠ [])) walked) := by
  induction parts generalizing pre cluster last with
  | nil => exact absurd rfl hne
  | cons part rest ih =>
    obtain ⟨hpart, hrest⟩ := List.forall_mem_cons.mp hslash
    rw [Flow.forEach, resolveComponent]
    by_cases hempty : part = []
    · rw [if_pos hempty, List.filter_cons_of_neg (by simp [hempty])]
      cases rest with
      | nil =>
        refine Or.inl ⟨rfl, ?_⟩
        rintro ⟨component, r, hlast, -⟩
        cases hlast
      | cons next rest =>
        refine ih (by simp) hrest (pre ++ ['/']) cluster last ?_
        rw [hpath, hempty, List.intercalate_cons_cons, List.nil_append, List.append_assoc]
    rw [if_neg hempty, List.filter_cons_of_pos (by simpa using hempty), walkComponents]
    cases hfind : fs.findEntry d cluster part with
    | none =>
      refine Or.inl ⟨rfl, ?_⟩
      rintro ⟨component, r, -, hr, -⟩
      cases hr
    | some o =>
      cases o with
      | none =>
        refine Or.inl ⟨rfl, ?_⟩
        rintro ⟨component, r, -, hr, -⟩
        cases hr
      | some r =>
        obtain ⟨entry, name⟩ := r
        dsimp only
        by_cases hdir : entry.isDirectory = true
        · rw [if_pos hdir, if_pos hdir]
          cases rest with
          | nil =>
            refine Or.inl ⟨rfl, ?_⟩
            rintro ⟨component, r, -, hr, hfile, -⟩
            cases hr
            rw [hdir] at hfile
            cases hfile
          | cons next rest =>
            have hnext := ih (by simp) hrest (pre ++ part ++ ['/']) entry.firstCluster
              (some (entry, name)) (by rw [hpath, List.intercalate_cons_cons]; simp)
            have hlast : ∀ {result}, Misread path (part :: (next :: rest).filter (· ≠ [])) result ↔
                (Misread path ((next :: rest).filter (· ≠ [])) result ∨
                  (next :: rest).filter (· ≠ []) = [] ∧ Misread path [part] result) := fun {result} => by
              cases (next :: rest).filter (· ≠ []) with
              | nil =>
                refine ⟨fun h => Or.inr ⟨rfl, h⟩, ?_⟩
                rintro (⟨component, r, h, -⟩ | ⟨-, h⟩)
                · cases h
                · exact h
              | cons x xs =>
                unfold Misread
                rw [List.getLast?_cons_cons]
                exact ⟨Or.inl, fun h => h.resolve_right fun h => by cases h.1⟩
            rcases hnext with ⟨heq, hgood⟩ | ⟨heq, hbad⟩
            · refine Or.inl ⟨heq, fun h => ?_⟩
              rcases hlast.mp h with h | ⟨hnil, component, r, -, hr, hfile, -⟩
              · exact hgood h
              · rw [hnil, walkComponents] at hr
                cases hr
                rw [hdir] at hfile
                cases hfile
            · exact Or.inr ⟨heq, hlast.mpr (Or.inl hbad)⟩
        · rw [if_neg hdir, if_neg hdir]
          obtain ⟨pos, hle, hpos⟩ := find_le part pre
            (if rest = [] then [] else '/' :: ['/'].intercalate rest)
          have hpath' : path = pre ++ part ++ (if rest = [] then [] else '/' :: ['/'].intercalate rest) := by
            cases rest with
            | nil => rw [hpath, List.intercalate_singleton, if_pos rfl, List.append_nil]
            | cons next rest =>
              rw [hpath, List.intercalate_cons_cons, if_neg (by simp)]
              simp
          rw [← hpath'] at hpos
          rw [hpos]
          dsimp only
          by_cases hend : rest = []
          · have hnoslash : trailing path = false := by
              rw [hpath', if_pos hend, List.append_nil, trailing, List.getLast?_append_of_ne_nil _ hempty,
                decide_eq_false_iff_not]
              exact fun h => hpart (List.mem_of_getLast? h)
            have hnil : rest.filter (· ≠ []) = [] := by rw [hend]; rfl
            have hgoes : ¬ (([] : List Str) ≠ [] ∨ false = true) := by simp
            by_cases hafter : '/' ∈ path.drop (pos + part.length)
            · rw [if_pos hafter, hnil, hnoslash, if_neg hgoes]
              exact Or.inr ⟨rfl, part, (entry, name), rfl, rfl, by simpa using hdir, pos, hpos, hafter⟩
            · rw [if_neg hafter, hnil, hnoslash, if_neg hgoes, hend]
              refine Or.inl ⟨rfl, ?_⟩
              rintro ⟨component, r, hlast, -, -, pos', hpos', hafter'⟩
              obtain rfl : part = component := Option.some.inj hlast
              rw [hpos] at hpos'
              cases hpos'
              exact hafter hafter'
          · have hafter : '/' ∈ path.drop (pos + part.length) := by
              obtain ⟨pos', hpos', hafter'⟩ := slashAfter_of part pre
                (List.mem_cons_self (a := '/') (l := ['/'].intercalate rest))
              rw [hpath', if_neg hend] at hpos
              rw [hpos] at hpos'
              cases hpos'
              rw [hpath', if_neg hend]
              exact hafter'
            have hstop : rest.filter (· ≠ []) ≠ [] ∨ trailing path = true := by
              refine or_iff_not_imp_left.mpr fun hnil => ?_
              rw [not_not] at hnil
              have hall : ∀ x ∈ rest, x = [] := fun x hx => by
                simpa using List.filter_eq_nil_iff.mp hnil x hx
              rw [trailing, decide_eq_true_iff, hpath', if_neg hend,
                List.getLast?_append_of_ne_nil _ (by simp), List.getLast?_eq_some_getLast (by simp)]
              refine congrArg some ?_
              have hmem := List.getLast_mem (l := '/' :: ['/'].intercalate rest) (by simp)
              rcases List.mem_cons.mp hmem with h | h
              · exact h
              · exact intercalate_empty hall _ h
            rw [if_pos hafter, if_pos hstop]
            refine Or.inl ⟨rfl, ?_⟩
            rintro ⟨component, r, -, hr, -⟩
            cases hr

/-- **Resolving a path.**  `resolve_path` is the walk over the components of the path if and only if the path
does not denote a file whose last component occurs in the path for the first time before a slash. -/
theorem resolve_exact (fs : Fat32Fs) (d : Disk) (path : Str) :
    fs.resolvePath d path = fs.denotes d path ↔
      ¬ Misread (path.dropWhile (· = '/')) (components path) (fs.denotes d path) := by
  rw [resolvePath, denotes]
  by_cases hroot : path.dropWhile (· = '/') = []
  · have hnil : components path = [] := by rw [← components_dropWhile, hroot]; rfl
    rw [if_pos hroot, hnil, walkComponents]
    refine iff_of_true rfl ?_
    rintro ⟨component, r, hlast, -⟩
    cases hlast
  · rw [if_neg hroot, ← components_dropWhile path, ← trailing_dropWhile hroot]
    have hcomps := components_dropWhile_ne_nil hroot
    generalize path.dropWhile (· = '/') = path' at hroot hcomps ⊢
    have hparts := List.splitOn_ne_nil '/' path'
    have hwalk := resolveComponents (d := d) fs path' (path'.splitOn '/') hparts
      (splitOn_noSlash path') [] fs.rootCluster none
      (by rw [List.intercalate_splitOn, List.nil_append])
    dsimp only at hwalk
    rw [← components, walkComponents_last none (some (fs.rootEntry, [0x2F])) hcomps] at hwalk
    change loopResult _ = _ ↔ _
    rcases hwalk with ⟨heq, hgood⟩ | ⟨heq, hbad⟩
    · exact iff_of_true heq hgood
    · refine iff_of_false (fun h => ?_) (not_not_intro hbad)
      obtain ⟨component, r, -, hr, -⟩ := hbad
      rw [heq, hr] at h
      cases h

/-! ### A volume with a root directory -/

/-- The boot sector of a small volume whose root directory is cluster 2. -/
def rootedBoot : Bytes := pairedBoot.store 44 2 4

/-- The volume. -/
def rootedFs : Fat32Fs :=
  ⟨⟨512, 2, 1, 1, 0, 0, 254, 1, 2⟩, 1, 2, 126, 2⟩

/-- The short name `A`. -/
def shortA : List UInt8 := padded 11 [0x41]

/-- A disk with a directory `A` in cluster 3 that has a file `A`. -/
def nestedDisk : Disk :=
  putShort shortA attrArchive 0 0 2048 (putShort shortA attrDirectory 3 0 1024
    ((Bytes.zero.store 520 fat32Eoc 4).store 524 fat32Eoc 4))

/-- The file `A` in the directory `A` is not found. -/
theorem resolve_misreads : openFs rootedBoot = some (some rootedFs) ∧
    rootedFs.resolvePath nestedDisk "/A/A".toList ≠ rootedFs.denotes nestedDisk "/A/A".toList := by
  refine ⟨by decide +kernel, fun h => ?_⟩
  have hcode : rootedFs.resolvePath nestedDisk "/A/A".toList = some none := by decide +kernel
  have hfound : (rootedFs.denotes nestedDisk "/A/A".toList).map Option.isSome = some true := by
    decide +kernel
  rw [← h, hcode] at hfound
  cases hfound

end Fat32Fs

end Fs

end NekOS
