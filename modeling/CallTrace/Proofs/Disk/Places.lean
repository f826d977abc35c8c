import CallTrace.Proofs.Disk.Paths

/-!
# Where names lead

What is put at one place leaves all others as they are. Names lead from place to place, and a link
leads on by names of its own. A disk that keeps the directories, the files and the links of another
is followed like the other, except where all that the other objects to is that something is missing.
-/

namespace CallTrace

namespace FileSystem

variable {fs fs' : FileSystem} {place : Location} {entry : DiskEntry}

/-- The entries with something else at a place where something stands. -/
def replaced (entries : List (Location × DiskEntry)) (place : Location) (entry : DiskEntry) :
    List (Location × DiskEntry) :=
  entries.map fun e => if e.1 = place then (place, entry) else e

theorem put_eq (fs : FileSystem) (place : Location) (entry : DiskEntry) :
    fs.put place entry =
      if fs.entries.any fun e => e.1 = place then
        { fs with entries := replaced fs.entries place entry }
      else { fs with entries := fs.entries ++ [(place, entry)] } := rfl

theorem find?_replaced (entries : List (Location × DiskEntry)) (place q : Location)
    (entry : DiskEntry) :
    (replaced entries place entry).find? (fun e => e.1 = q) =
      if q = place ∧ entries.any (fun e => e.1 = place) then some (place, entry)
      else entries.find? fun e => e.1 = q := by
  induction entries with
  | nil => simp [replaced]
  | cons e entries ih =>
    rw [replaced, List.map_cons, ← replaced, List.find?_cons, List.find?_cons, List.any_cons, ih]
    by_cases he : e.1 = place
    · by_cases hq : q = place
      · simp [he, hq]
      · have hq' : place ≠ q := fun h => hq h.symm
        simp [he, hq, hq']
    · by_cases hq : q = place
      · rw [hq, decide_eq_false he, if_neg he]
        simp only [decide_eq_false he, Bool.false_or]
      · by_cases heq : e.1 = q <;> simp [he, hq, heq]

theorem replaced_of_none {entries : List (Location × DiskEntry)}
    (h : ∀ e ∈ entries, e.1 ≠ place) (entry : DiskEntry) :
    replaced entries place entry = entries := by
  induction entries with
  | nil => rfl
  | cons e entries ih =>
    obtain ⟨he, hrest⟩ := List.forall_mem_cons.mp h
    rw [replaced, List.map_cons, ← replaced, if_neg he, ih hrest]

theorem replaced_replaced (entries : List (Location × DiskEntry)) (place : Location)
    (entry : DiskEntry) :
    replaced (replaced entries place entry) place entry = replaced entries place entry := by
  rw [replaced, replaced, List.map_map]
  refine List.map_congr_left fun e _ => ?_
  by_cases he : e.1 = place <;> simp [he]

theorem any_replaced (entries : List (Location × DiskEntry)) (place : Location)
    (entry : DiskEntry) :
    (replaced entries place entry).any (fun e => e.1 = place) =
      entries.any fun e => e.1 = place := by
  rw [replaced, List.any_map]
  congr 1
  funext e
  by_cases he : e.1 = place <;> simp [he]

theorem working_put (fs : FileSystem) (place : Location) (entry : DiskEntry) :
    (fs.put place entry).working = fs.working := by
  rw [put_eq]
  split <;> rfl

theorem objections_put (fs : FileSystem) (place : Location) (entry : DiskEntry) :
    (fs.put place entry).objections = fs.objections := by
  rw [put_eq]
  split <;> rfl

/-- What stands at a place other than the root and the working directory is among the entries. -/
theorem lookup_eq (h : ¬ (place = [] ∨ place = fs.working)) :
    fs.lookup place = (fs.entries.find? fun e => e.1 = place).map (·.2) := if_neg h

/-- The root and the working directory are directories. -/
theorem not_fixed (h : fs.lookup place ≠ some .directory) :
    ¬ (place = [] ∨ place = fs.working) := by
  intro hfixed
  exact h (if_pos hfixed)

/-- What is put at a place stands there, and all else stays. -/
theorem lookup_put (h : fs.lookup place ≠ some .directory) (entry : DiskEntry) (q : Location) :
    (fs.put place entry).lookup q = if q = place then some entry else fs.lookup q := by
  have hplace := not_fixed h
  by_cases hfixed : q = [] ∨ q = fs.working
  · have hne : q ≠ place := by
      rintro rfl
      exact hplace hfixed
    rw [if_neg hne, lookup, working_put, if_pos hfixed, lookup, if_pos hfixed]
  · have hfixed' : ¬ (q = [] ∨ q = (fs.put place entry).working) := by rwa [working_put]
    rw [lookup_eq hfixed, lookup_eq hfixed', put_eq]
    split
    · next hany =>
      rw [find?_replaced]
      by_cases hq : q = place
      · simp [hq, hany]
      · simp [hq]
    · next hnone =>
      have hother : ∀ e ∈ fs.entries, e.1 ≠ place := by
        intro e he hp
        exact hnone (List.any_eq_true.mpr ⟨e, he, decide_eq_true hp⟩)
      have hmissing : (fs.entries.find? fun e => e.1 = place) = none :=
        List.find?_eq_none.mpr fun e he => by simp [hother e he]
      rw [List.find?_append]
      by_cases hq : q = place
      · simp [hq, hmissing]
      · have hq' : place ≠ q := fun h => hq h.symm
        simp [hq, hq']

/-- Putting the same at a place again changes nothing. -/
theorem put_put (fs : FileSystem) (place : Location) (entry : DiskEntry) :
    (fs.put place entry).put place entry = fs.put place entry := by
  by_cases hany : fs.entries.any (fun e => e.1 = place)
  · rw [put_eq fs, if_pos hany, put_eq]
    simp only [any_replaced, hany, if_true, replaced_replaced]
  · have hother : ∀ e ∈ fs.entries, e.1 ≠ place := by
      intro e he hp
      exact hany (List.any_eq_true.mpr ⟨e, he, decide_eq_true hp⟩)
    have happend : replaced (fs.entries ++ [(place, entry)]) place entry =
        fs.entries ++ [(place, entry)] := by
      rw [replaced, List.map_append, ← replaced, replaced_of_none hother]
      simp
    rw [put_eq fs, if_neg hany, put_eq]
    simp only [List.any_append, List.any_cons, decide_true, Bool.true_or, Bool.or_true, if_true,
      happend]

/--
One disk keeps what the other has: it objects to the same, and from the same working directory all
directories are still directories, all files are still files, whatever their content, and the links
are the same.
-/
structure Keeps (fs fs' : FileSystem) : Prop where
  /-- Relative paths start at the same place. -/
  working : fs'.working = fs.working
  /-- The disk objects to the same. -/
  objections : fs'.objections = fs.objections
  /-- Directories stay. -/
  directory : ∀ q, fs.lookup q = some .directory → fs'.lookup q = some .directory
  /-- Files stay files. -/
  file : ∀ q content, fs.lookup q = some (.file content) →
    ∃ content', fs'.lookup q = some (.file content')
  /-- Links stay, and none is new. -/
  link : ∀ q fromRoot names,
    fs'.lookup q = some (.link fromRoot names) ↔ fs.lookup q = some (.link fromRoot names)

/-- All that stands on one disk stands unchanged on the other, where only directories are new. -/
structure Within (fs fs' : FileSystem) : Prop where
  /-- Relative paths start at the same place. -/
  working : fs'.working = fs.working
  /-- The disk objects to the same. -/
  objections : fs'.objections = fs.objections
  /-- What stands somewhere stays. -/
  entry : ∀ q entry, fs.lookup q = some entry → fs'.lookup q = some entry
  /-- What is new is a directory. -/
  added : ∀ q entry, fs.lookup q = none → fs'.lookup q = some entry → entry = .directory

theorem Within.refl (fs : FileSystem) : fs.Within fs where
  working := rfl
  objections := rfl
  entry _ _ h := h
  added q entry hnone h := by cases hnone.symm.trans h

theorem Within.trans {fs'' : FileSystem} (h : fs.Within fs') (h' : fs'.Within fs'') :
    fs.Within fs'' where
  working := h'.working.trans h.working
  objections := h'.objections.trans h.objections
  entry q entry hq := h'.entry q entry (h.entry q entry hq)
  added q entry hnone hq := by
    cases hmiddle : fs'.lookup q with
    | none => exact h'.added q entry hmiddle hq
    | some first =>
      obtain rfl := Option.some.inj ((h'.entry q first hmiddle).symm.trans hq)
      exact h.added q _ hnone hmiddle

/-- What stands somewhere other than a directory stood there before. -/
theorem Within.entry_iff (h : fs.Within fs') {q : Location} (hnot : entry ≠ .directory) :
    fs'.lookup q = some entry ↔ fs.lookup q = some entry := by
  refine ⟨fun hq => ?_, h.entry q entry⟩
  cases hold : fs.lookup q with
  | none => exact absurd (h.added q entry hold hq) hnot
  | some first => exact (h.entry q first hold).symm.trans hq

theorem Within.keeps (h : fs.Within fs') : fs.Keeps fs' where
  working := h.working
  objections := h.objections
  directory q := h.entry q _
  file q content hq := ⟨content, h.entry q _ hq⟩
  link _ _ _ := h.entry_iff nofun

theorem Keeps.trans {fs'' : FileSystem} (h : fs.Keeps fs') (h' : fs'.Keeps fs'') :
    fs.Keeps fs'' where
  working := h'.working.trans h.working
  objections := h'.objections.trans h.objections
  directory q hq := h'.directory q (h.directory q hq)
  file q content hq := by
    obtain ⟨content', hq'⟩ := h.file q content hq
    exact h'.file q content' hq'
  link q fromRoot names := (h'.link q fromRoot names).trans (h.link q fromRoot names)

theorem ne_directory_of_vacant (h : fs.lookup place = none) :
    fs.lookup place ≠ some .directory := by
  simp [h]

/-- A new directory takes nothing away. -/
theorem within_put (h : fs.lookup place = none) : fs.Within (fs.put place .directory) := by
  have hfree := ne_directory_of_vacant h
  refine ⟨fs.working_put place _, fs.objections_put place _, fun q e hq => ?_,
    fun q e hnone hq => ?_⟩
  · rw [lookup_put hfree, if_neg, hq]
    rintro rfl
    cases h.symm.trans hq
  · rw [lookup_put hfree] at hq
    split at hq
    · cases hq
      rfl
    · cases hnone.symm.trans hq

/-- Giving a file other content, or making it, leaves all directories, files and links. -/
theorem keeps_put_file (h : fs.lookup place ≠ some .directory)
    (hlink : ∀ fromRoot names, fs.lookup place ≠ some (.link fromRoot names))
    (content : List UInt8) : fs.Keeps (fs.put place (.file content)) := by
  refine ⟨fs.working_put place _, fs.objections_put place _, fun q hq => ?_, fun q old hq => ?_,
    fun q fromRoot names => ?_⟩
  · rw [lookup_put h, if_neg, hq]
    rintro rfl
    exact h hq
  · rw [lookup_put h]
    split
    · exact ⟨content, rfl⟩
    · exact ⟨old, hq⟩
  · rw [lookup_put h]
    split
    · next hsame =>
      rw [hsame]
      exact iff_of_false nofun (hlink fromRoot names)
    · exact Iff.rfl

/-! ### Walks -/

variable {last : Bool} {budget : Nat} {next : Location} {name : FileName}
variable {names more : List FileName}

/-- To follow a link is to go on behind it, with one link less to follow. -/
def detour (fs : FileSystem) (last : Bool) :
    (budget : Nat) → Location → List FileName → Except Refusal (Location × Nat)
  | 0, _, _ => .error .tooManyLinks
  | budget + 1, place, names => fs.walk last budget place names

theorem walk_eq (fs : FileSystem) (last : Bool) (budget : Nat) :
    fs.walk last budget = fs.walkWith last budget (fs.detour last budget) := by
  cases budget <;> rfl

@[simp] theorem walk_nil (fs : FileSystem) (last : Bool) (budget : Nat) (place : Location) :
    fs.walk last budget place [] = .ok (place, budget) := by
  rw [walk_eq]
  rfl

theorem walk_of_refused {refusal : Refusal} (h : fs.enter place name = .error refusal) :
    fs.walk last budget place (name :: names) = .error refusal := by
  rw [walk_eq, walkWith, h]

/-- Where no link stands, the next name leads on. -/
theorem walk_of_entered (h : fs.enter place name = .ok next)
    (hlink : ∀ fromRoot target, fs.lookup next ≠ some (.link fromRoot target)) :
    fs.walk last budget place (name :: names) = fs.walk last budget next names := by
  rw [walk_eq, walkWith, h]
  dsimp only
  split
  · next fromRoot target hl => exact absurd hl (hlink fromRoot target)
  · rfl

/-- A link is followed on the way, and at the end if the last is to be followed. -/
theorem walk_of_link {fromRoot : Bool} {target : List FileName}
    (h : fs.enter place name = .ok next) (hl : fs.lookup next = some (.link fromRoot target)) :
    fs.walk last budget place (name :: names) =
      if names = [] ∧ last = false then .ok (next, budget)
      else fs.detour last budget (if fromRoot then [] else place) (target ++ names) := by
  rw [walk_eq, walkWith, h]
  simp only [hl]

/-- What holds of no names, and of names if it holds of those behind the first, and behind any link,
holds of all walks. -/
theorem walk_induction {P : Nat → Location → List FileName → Prop}
    (nil : ∀ budget place, P budget place [])
    (cons : ∀ budget place name names, (∀ next, P budget next names) →
      (∀ fewer < budget, ∀ start more, P fewer start more) → P budget place (name :: names))
    (budget : Nat) (place : Location) (names : List FileName) : P budget place names := by
  induction budget using Nat.strongRecOn generalizing place names with
  | _ budget ih =>
    induction names generalizing place with
    | nil => exact nil budget place
    | cons name names ihn => exact cons budget place name names ihn fun fewer h => ih fewer h

/-- Without the last link being followed, a walk ends as it does otherwise, or at a link. -/
theorem walk_cases (fs : FileSystem) (budget : Nat) (place : Location) (names : List FileName) :
    fs.walk false budget place names = fs.walk true budget place names ∨
      ∃ q fewer fromRoot target, fs.walk false budget place names = .ok (q, fewer) ∧
        fs.lookup q = some (.link fromRoot target) := by
  induction budget, place, names using walk_induction with
  | nil budget place => exact .inl (by rw [walk_nil, walk_nil])
  | cons budget place name names ihn ih =>
    cases henter : fs.enter place name with
    | error refusal => exact .inl (by rw [walk_of_refused henter, walk_of_refused henter])
    | ok next =>
      by_cases hlink : ∃ fromRoot target, fs.lookup next = some (.link fromRoot target)
      · obtain ⟨fromRoot, target, hl⟩ := hlink
        rw [walk_of_link henter hl, walk_of_link henter hl]
        by_cases hnames : names = []
        · exact .inr ⟨next, budget, fromRoot, target, by simp [hnames], hl⟩
        · simp only [hnames, false_and, if_false]
          cases budget with
          | zero => exact .inl rfl
          | succ budget => exact ih budget (Nat.lt_succ_self _) _ _
      · have hnot : ∀ fromRoot target, fs.lookup next ≠ some (.link fromRoot target) :=
          fun fromRoot target hl => hlink ⟨fromRoot, target, hl⟩
        rw [walk_of_entered henter hnot, walk_of_entered henter hnot]
        exact ihn next

/-- Names behind names lead on from where those lead, with the links that are left to follow. -/
theorem walk_append (fs : FileSystem) (last : Bool) (budget : Nat) (place : Location)
    (names : List FileName) (hmore : more ≠ []) :
    fs.walk last budget place (names ++ more) =
      match fs.walk true budget place names with
      | .error refusal => .error refusal
      | .ok (next, fewer) => fs.walk last fewer next more := by
  induction budget, place, names using walk_induction with
  | nil budget place => rw [walk_nil, List.nil_append]
  | cons budget place name names ihn ih =>
    rw [List.cons_append]
    cases henter : fs.enter place name with
    | error refusal => rw [walk_of_refused henter, walk_of_refused henter]
    | ok next =>
      by_cases hlink : ∃ fromRoot target, fs.lookup next = some (.link fromRoot target)
      · obtain ⟨fromRoot, target, hl⟩ := hlink
        have hgoes : names ++ more ≠ [] := List.append_ne_nil_of_right_ne_nil _ hmore
        rw [walk_of_link henter hl, walk_of_link henter hl]
        simp only [hgoes, false_and, if_false, Bool.true_eq_false, and_false]
        rw [← List.append_assoc]
        cases budget with
        | zero => rfl
        | succ budget => exact ih budget (Nat.lt_succ_self _) _ _
      · have hnot : ∀ fromRoot target, fs.lookup next ≠ some (.link fromRoot target) :=
          fun fromRoot target hl => hlink ⟨fromRoot, target, hl⟩
        rw [walk_of_entered henter hnot, walk_of_entered henter hnot]
        exact ihn next

/-- A name leads nowhere from a place where nothing stands, and from one where no directory does. -/
theorem enter_of_not_directory (h : fs.lookup place ≠ some .directory) (name : FileName) :
    fs.enter place name =
      .error (if fs.lookup place = none then .notFound else .notDirectory) := by
  unfold enter
  cases hl : fs.lookup place with
  | none => rfl
  | some entry =>
    cases entry with
    | directory => exact absurd hl h
    | file content => rfl
    | link fromRoot names => rfl

/-- Behind a directory a name is never missed. -/
theorem enter_of_directory (h : fs.lookup place = some .directory) (name : FileName) :
    fs.enter place name ≠ .error .notFound := by
  unfold enter
  rw [h]
  dsimp only
  split
  · next objection _ => exact fun he => objection.found (Except.error.inj he)
  · split
    · nofun
    · split <;> nofun

namespace Keeps

theorem startOf_eq (h : fs.Keeps fs') (start : PathStart) :
    fs'.startOf start = fs.startOf start := by
  cases start with
  | working => exact h.working
  | root => rfl
  | doubleRoot => rfl

/-- A name leads to the same place, or is refused alike, where anything stood at its front. -/
theorem enter_eq (h : fs.Keeps fs') (hfound : fs.enter place name ≠ .error .notFound) :
    fs'.enter place name = fs.enter place name := by
  unfold enter at hfound ⊢
  rw [h.objections]
  cases hp : fs.lookup place with
  | none => simp [hp] at hfound
  | some entry =>
    cases entry with
    | file content =>
      obtain ⟨content', hp'⟩ := h.file place content hp
      rw [hp']
    | directory => rw [h.directory place hp]
    | link fromRoot names => rw [(h.link place fromRoot names).mpr hp]

/-- Names lead to the same place, or are refused alike, unless something was missing. -/
theorem walk_eq (h : fs.Keeps fs') (budget : Nat) (place : Location) (names : List FileName)
    (hfound : fs.walk last budget place names ≠ .error .notFound) :
    fs'.walk last budget place names = fs.walk last budget place names := by
  induction budget, place, names using walk_induction with
  | nil budget place => rw [walk_nil, walk_nil]
  | cons budget place name names ihn ih =>
    have henter : fs.enter place name ≠ .error .notFound := by
      intro hn
      exact hfound (walk_of_refused hn)
    have henter' := h.enter_eq henter
    cases hp : fs.enter place name with
    | error refusal =>
      rw [hp] at henter'
      rw [walk_of_refused henter', walk_of_refused hp]
    | ok next =>
      rw [hp] at henter'
      by_cases hlink : ∃ fromRoot target, fs.lookup next = some (.link fromRoot target)
      · obtain ⟨fromRoot, target, hl⟩ := hlink
        rw [walk_of_link hp hl] at hfound ⊢
        rw [walk_of_link henter' ((h.link next fromRoot target).mpr hl)]
        split
        · rfl
        · next hgoes =>
          rw [if_neg hgoes] at hfound
          cases budget with
          | zero => rfl
          | succ budget => exact ih budget (Nat.lt_succ_self _) _ _ hfound
      · have hnot : ∀ fromRoot target, fs.lookup next ≠ some (.link fromRoot target) :=
          fun fromRoot target hl => hlink ⟨fromRoot, target, hl⟩
        have hnot' : ∀ fromRoot target, fs'.lookup next ≠ some (.link fromRoot target) :=
          fun fromRoot target hl => hnot fromRoot target ((h.link next fromRoot target).mp hl)
        rw [walk_of_entered hp hnot] at hfound ⊢
        rw [walk_of_entered henter' hnot']
        exact ihn next hfound

end Keeps

end FileSystem

end CallTrace
