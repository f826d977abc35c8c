import CallTrace.Proofs.Disk.Places
import CallTrace.Proofs.Text.Numerals

/-!
# Making directories

To make a directory ends in one of four ways: it is there, it is made, something above it is
missing, or something keeps it from being made. To make the directories of a path is to make those
that are missing, from the first one on, up to the path or to the first that is kept from being
made. What was made stays, so that what is in the way may be met at another path when it is met
again.
-/

namespace CallTrace

namespace FileSystem

variable {fs fs' : FileSystem} {place : Location} {p q : Path} {refusal : Refusal} {last : Bool}

/-- Where the names of a path lead, with the number of links that may still be followed. -/
def follow (fs : FileSystem) (last : Bool) (p : Path) : Except Refusal (Location × Nat) :=
  fs.walk last linkLimit (fs.startOf p.start) (p.names.map Letters.bytes)

/-- A path leads to a directory. -/
def HasDirectory (fs : FileSystem) (p : Path) : Prop :=
  ∃ place fewer, fs.follow true p = .ok (place, fewer) ∧ fs.lookup place = some .directory

/-- Something above a directory is missing. -/
def Missing (fs : FileSystem) (p : Path) : Prop :=
  ∃ path?, fs.ensureDirectory p = .error (.refused .notFound path?)

/--
Something above a directory is missing, and cannot all be made, but once all is made that can be
made the directory is kept back by something else.
-/
def StopsShort (fs : FileSystem) (p : Path) : Prop :=
  fs.Missing p ∧ ∃ e fs', fs.ensureDirectories p.parent = (.error e, fs') ∧ ¬ fs'.Missing p

theorem Keeps.follow_eq (h : fs.Keeps fs') (hfound : fs.follow last p ≠ .error .notFound) :
    fs'.follow last p = fs.follow last p := by
  rw [follow, h.startOf_eq]
  exact h.walk_eq _ _ _ hfound

/-! ### Where a path leads -/

theorem locate_of_usable (h : p.Usable) :
    fs.locate last p =
      match fs.follow last p with
      | .ok (place, _) => .ok place
      | .error refusal => .error (.refused refusal (some p.text)) := by
  have hnull : p.text.contains (.char '\x00') = false := by simpa using h.noNull
  rw [locate, h.systemBytes]
  dsimp only
  rw [hnull, if_neg Bool.false_ne_true, if_neg (Nat.not_le.mpr h.short)]
  rfl

/-- A path that no disk can be asked for is refused by all of them alike. -/
theorem locate_of_not_usable (h : ¬ p.Usable) :
    ∃ e, p.Unusable e ∧ ∀ (fs : FileSystem) (last : Bool), fs.locate last p = .error e := by
  obtain ⟨e, he⟩ := p.usable_or_unusable.resolve_left h
  refine ⟨e, he, fun fs last => ?_⟩
  cases he with
  | stray hbytes => rw [locate, hbytes]
  | null hbytes hnull =>
    rw [locate, hbytes]
    exact if_pos (by simpa using hnull)
  | long hbytes hnull hlong =>
    rw [locate, hbytes]
    dsimp only
    rw [if_neg (by simpa using hnull), if_pos hlong]

/-- A path that leads somewhere leads there on every disk that keeps what the one has. -/
theorem Keeps.locate_of_ok (h : fs.Keeps fs') (hp : fs.locate last p = .ok place) :
    fs'.locate last p = .ok place := by
  by_cases husable : p.Usable
  · rw [locate_of_usable husable] at hp ⊢
    rw [h.follow_eq (fun hmissing => by rw [hmissing] at hp; cases hp), hp]
  · obtain ⟨e, -, hlocate⟩ := locate_of_not_usable husable
    cases (hlocate fs last).symm.trans hp

/-- A path leads on from where a path above it leads. -/
theorem follow_behind (habove : q.IsAbove p) (last : Bool) :
    ∃ name more, fs.follow last p =
      match fs.follow true q with
      | .error refusal => .error refusal
      | .ok (place, fewer) => fs.walk last fewer place (name :: more) := by
  obtain ⟨hstart, name, more, hnames⟩ := habove
  refine ⟨name.bytes, more.map Letters.bytes, ?_⟩
  rw [follow, hnames, List.map_append, List.map_cons, ← hstart,
    walk_append _ _ _ _ _ (List.cons_ne_nil _ _)]
  rfl

/-- What all paths behind a path meet there that is no directory. -/
def barrier (fs : FileSystem) (q : Path) : Refusal :=
  match fs.follow true q with
  | .error refusal => refusal
  | .ok (place, _) => if fs.lookup place = none then .notFound else .notDirectory

theorem follow_of_barrier (h : ¬ fs.HasDirectory q) (habove : q.IsAbove p) (last : Bool) :
    fs.follow last p = .error (fs.barrier q) := by
  obtain ⟨name, more, hfollow⟩ := fs.follow_behind habove last
  rw [hfollow, barrier]
  cases hq : fs.follow true q with
  | error refusal => rfl
  | ok r =>
    obtain ⟨place, fewer⟩ := r
    exact walk_of_refused (enter_of_not_directory (fun hl => h ⟨place, fewer, hq, hl⟩) name)

/-- Behind a directory nothing is missing on the way to the next name. -/
theorem follow_of_parent (hn : p.names ≠ []) (h : fs.HasDirectory p.parent) :
    fs.follow false p ≠ .error .notFound := by
  obtain ⟨name, hnames⟩ := Path.names_eq_append hn
  obtain ⟨place, fewer, hplace, hl⟩ := h
  have hparent : fs.walk true linkLimit (fs.startOf p.start) (p.parent.names.map Letters.bytes) =
      .ok (place, fewer) := hplace
  rw [follow, hnames, List.map_append, List.map_singleton, walk_append _ _ _ _ _ (by simp), hparent]
  dsimp only
  have hfound := enter_of_directory hl name.bytes
  cases henter : fs.enter place name.bytes with
  | error refusal =>
    rw [henter] at hfound
    rw [walk_of_refused henter]
    simpa using hfound
  | ok next =>
    by_cases hlink : ∃ fromRoot target, fs.lookup next = some (.link fromRoot target)
    · obtain ⟨fromRoot, target, hl'⟩ := hlink
      rw [walk_of_link henter hl']
      simp
    · rw [walk_of_entered henter fun fromRoot target hl' => hlink ⟨fromRoot, target, hl'⟩]
      simp

/-- Nothing is in the way where there are no names. -/
theorem hasDirectory_of_names_eq_nil (h : p.names = []) : fs.HasDirectory p := by
  have hstart : fs.lookup (fs.startOf p.start) = some .directory := by
    refine if_pos ?_
    cases p.start with
    | working => exact .inr rfl
    | root => exact .inl rfl
    | doubleRoot => exact .inl rfl
  refine ⟨_, linkLimit, ?_, hstart⟩
  rw [follow, h]
  exact fs.walk_nil _ _ _

theorem Keeps.hasDirectory (h : fs.Keeps fs') (hp : fs.HasDirectory p) : fs'.HasDirectory p := by
  obtain ⟨place, fewer, hplace, hl⟩ := hp
  exact ⟨place, fewer, (h.follow_eq (by simp [hplace])).trans hplace, h.directory place hl⟩

/-- Where nothing stands at the end of a path, no link stands there that could be followed. -/
theorem follow_true_of_vacant {fewer : Nat} (hp : fs.follow false p = .ok (place, fewer))
    (h : fs.lookup place = none) : fs.follow true p = .ok (place, fewer) := by
  rcases fs.walk_cases linkLimit (fs.startOf p.start) (p.names.map Letters.bytes) with
    hsame | ⟨q, fewer', fromRoot, target, hq, hl⟩
  · exact hsame.symm.trans hp
  · cases hq.symm.trans hp
    cases h.symm.trans hl

/-! ### One directory -/

theorem isDirectory_of_usable (h : p.Usable) :
    fs.isDirectory p =
      match fs.follow true p with
      | .ok (place, _) => .ok (fs.lookup place = some .directory)
      | .error refusal =>
        if refusal.tellsAbsence then .ok false else .error (.refused refusal (some p.text)) := by
  rw [isDirectory, locate_of_usable h]
  cases fs.follow true p <;> rfl

theorem makeDirectory_of_usable (h : p.Usable) :
    fs.makeDirectory p =
      match fs.follow false p with
      | .error refusal => .error (.refused refusal (some p.text))
      | .ok (place, _) =>
        match fs.lookup place, fs.objections.make place with
        | some _, _ => .error (.refused .exists (some p.text))
        | none, some objection => .error (.refused objection.refusal (some p.text))
        | none, none => .ok (fs.put place .directory) := by
  rw [makeDirectory, locate_of_usable h]
  cases fs.follow false p <;> rfl

/-- What keeps a directory from being made is told, unless the directory is there already. -/
theorem ensureDirectory_of_refused
    (hmake : fs.makeDirectory p = .error (.refused refusal (some p.text)))
    (hfound : refusal ≠ .notFound) :
    fs.ensureDirectory p =
      match fs.isDirectory p with
      | .error e => .error e
      | .ok true => .ok fs
      | .ok false => .error (.refused refusal (some p.text)) := by
  rw [ensureDirectory, hmake]
  cases refusal <;> first | rfl | exact absurd rfl hfound

/-- A directory that is there need not be made. -/
theorem ensureDirectory_of_hasDirectory (h : p.Usable) (hp : fs.HasDirectory p) :
    fs.ensureDirectory p = .ok fs := by
  obtain ⟨place, fewer, hplace, hl⟩ := hp
  have hdirectory : fs.isDirectory p = .ok true := by
    rw [isDirectory_of_usable h, hplace]
    simp [hl]
  have hmake : fs.makeDirectory p = .error (.refused .exists (some p.text)) := by
    rw [makeDirectory_of_usable h]
    rcases fs.walk_cases linkLimit (fs.startOf p.start) (p.names.map Letters.bytes) with
      hsame | ⟨q, fewer', fromRoot, target, hq, hlink⟩
    · have hfollow : fs.follow false p = .ok (place, fewer) := hsame.trans hplace
      rw [hfollow]
      simp only [hl]
    · have hfollow : fs.follow false p = .ok (q, fewer') := hq
      rw [hfollow]
      simp only [hlink]
  rw [ensureDirectory_of_refused hmake nofun, hdirectory]

theorem ensureDirectory_of_missing (h : p.Usable) (hp : fs.follow false p = .error .notFound) :
    fs.ensureDirectory p = .error (.refused .notFound (some p.text)) := by
  have hmake : fs.makeDirectory p = .error (.refused .notFound (some p.text)) := by
    rw [makeDirectory_of_usable h, hp]
  rw [ensureDirectory, hmake]

theorem ensureDirectory_of_not_usable (h : ¬ p.Usable) :
    ∃ e, p.Unusable e ∧ ∀ fs : FileSystem, fs.ensureDirectory p = .error e := by
  obtain ⟨e, he, hlocate⟩ := locate_of_not_usable h
  refine ⟨e, he, fun fs => ?_⟩
  have hmake : fs.makeDirectory p = .error e := by rw [makeDirectory, hlocate]
  cases he with
  | stray hbytes => rw [ensureDirectory, hmake]
  | null hbytes hnull => rw [ensureDirectory, hmake]
  | long hbytes hnull hlong =>
    rw [ensureDirectory_of_refused hmake nofun, isDirectory, hlocate]
    rfl

/-- To make a directory ends in one of four ways. -/
inductive Ensuring (fs : FileSystem) (p : Path) : Prop
  /-- It is there. -/
  | there (h : fs.ensureDirectory p = .ok fs) (hp : fs.HasDirectory p)
  /-- It is made. -/
  | made {place : Location} {fewer : Nat}
    (h : fs.ensureDirectory p = .ok (fs.put place .directory))
    (hp : fs.follow false p = .ok (place, fewer)) (hl : fs.lookup place = none)
  /-- Something above it is missing. -/
  | missing (h : fs.ensureDirectory p = .error (.refused .notFound (some p.text)))
    (hp : fs.follow false p = .error .notFound)
  /-- Something keeps it from being made. -/
  | blocked {refusal : Refusal} (h : fs.ensureDirectory p = .error (.refused refusal (some p.text)))
    (hp : ¬ fs.HasDirectory p) (hfound : refusal ≠ .notFound)
    (hbarrier : fs.barrier p = .notFound ∨ fs.barrier p = refusal ∨
      refusal = .exists ∧ (fs.barrier p).tellsAbsence = true)

theorem ensuring_of_existing (h : p.Usable)
    (hmake : fs.makeDirectory p = .error (.refused .exists (some p.text))) : fs.Ensuring p := by
  have hensure := ensureDirectory_of_refused hmake nofun
  rw [isDirectory_of_usable h] at hensure
  cases hp : fs.follow true p with
  | error refusal =>
    have hnone : ¬ fs.HasDirectory p := by
      rintro ⟨place, fewer, hplace, -⟩
      cases hp.symm.trans hplace
    have hbarrier : fs.barrier p = refusal := by rw [barrier, hp]
    rw [hp] at hensure
    dsimp only at hensure
    cases htells : refusal.tellsAbsence with
    | true =>
      simp only [htells, if_true] at hensure
      exact .blocked hensure hnone nofun (.inr (.inr ⟨rfl, hbarrier ▸ htells⟩))
    | false =>
      simp only [htells, Bool.false_eq_true, if_false] at hensure
      refine .blocked hensure hnone ?_ (.inr (.inl hbarrier))
      rintro rfl
      cases htells
  | ok r =>
    obtain ⟨place, fewer⟩ := r
    by_cases hl : fs.lookup place = some .directory
    · have hdirectory : fs.HasDirectory p := ⟨place, fewer, hp, hl⟩
      exact .there (ensureDirectory_of_hasDirectory h hdirectory) hdirectory
    · have hnone : ¬ fs.HasDirectory p := by
        rintro ⟨place', fewer', hplace, hl'⟩
        cases hp.symm.trans hplace
        exact hl hl'
      rw [hp] at hensure
      simp only [hl, decide_false] at hensure
      refine .blocked hensure hnone nofun ?_
      rw [barrier, hp]
      dsimp only
      split
      · exact .inl rfl
      · exact .inr (.inr ⟨rfl, rfl⟩)

/-- To make a directory ends in one of four ways, on every disk that can be asked for its path. -/
theorem ensuring (fs : FileSystem) (h : p.Usable) : fs.Ensuring p := by
  have hmake := fs.makeDirectory_of_usable h
  cases hp : fs.follow false p with
  | error refusal =>
    rw [hp] at hmake
    by_cases hmissing : refusal = .notFound
    · rw [hmissing] at hp
      exact .missing (ensureDirectory_of_missing h hp) hp
    · rcases fs.walk_cases linkLimit (fs.startOf p.start) (p.names.map Letters.bytes) with
        hsame | ⟨q, fewer, fromRoot, target, hq, -⟩
      · have hfollow : fs.follow true p = .error refusal := hsame.symm.trans hp
        have hnone : ¬ fs.HasDirectory p := by
          rintro ⟨place, fewer, hplace, -⟩
          cases hfollow.symm.trans hplace
        have hensure := ensureDirectory_of_refused hmake hmissing
        rw [isDirectory_of_usable h, hfollow] at hensure
        refine .blocked ?_ hnone hmissing (.inr (.inl (by rw [barrier, hfollow])))
        rw [hensure]
        cases htells : refusal.tellsAbsence <;> simp [htells]
      · cases hp.symm.trans hq
  | ok r =>
    obtain ⟨place, fewer⟩ := r
    rw [hp] at hmake
    cases hl : fs.lookup place with
    | some entry =>
      simp only [hl] at hmake
      exact ensuring_of_existing h hmake
    | none =>
      cases hobjection : fs.objections.make place with
      | none =>
        simp only [hl, hobjection] at hmake
        exact .made (by rw [ensureDirectory, hmake]) hp hl
      | some objection =>
        simp only [hl, hobjection] at hmake
        have hfollow := follow_true_of_vacant hp hl
        have hnone : ¬ fs.HasDirectory p := by
          rintro ⟨place', fewer', hplace, hl'⟩
          cases hfollow.symm.trans hplace
          cases hl.symm.trans hl'
        have hensure := ensureDirectory_of_refused hmake objection.found
        rw [isDirectory_of_usable h, hfollow] at hensure
        simp only [hl, reduceCtorEq, decide_false] at hensure
        refine .blocked hensure hnone objection.found (.inl ?_)
        rw [barrier, hfollow]
        exact if_pos hl

theorem missing_iff : fs.Missing p ↔ p.Usable ∧ fs.follow false p = .error .notFound := by
  constructor
  · rintro ⟨path?, hmissing⟩
    by_cases husable : p.Usable
    · cases fs.ensuring husable with
      | there h _ => cases h.symm.trans hmissing
      | made h _ _ => cases h.symm.trans hmissing
      | missing _ hp => exact ⟨husable, hp⟩
      | blocked h _ hfound _ =>
        cases h.symm.trans hmissing
        exact absurd rfl hfound
    · obtain ⟨e, he, hrefused⟩ := ensureDirectory_of_not_usable husable
      cases (hrefused fs).symm.trans hmissing
      cases he
  · intro ⟨husable, hp⟩
    exact ⟨_, ensureDirectory_of_missing husable hp⟩

theorem not_missing_of_follow (h : fs.follow false p ≠ .error .notFound) : ¬ fs.Missing p :=
  fun hmissing => h (missing_iff.mp hmissing).2

theorem Missing.names_ne_nil (h : fs.Missing p) : p.names ≠ [] := by
  intro hnil
  obtain ⟨path?, hmissing⟩ := h
  have hthere := ensureDirectory_of_hasDirectory (Path.usable_of_names_eq_nil hnil)
    (fs.hasDirectory_of_names_eq_nil hnil)
  cases hthere.symm.trans hmissing

theorem HasDirectory.not_missing (h : p.Usable) (hp : fs.HasDirectory p) : ¬ fs.Missing p := by
  rintro ⟨path?, hmissing⟩
  cases (ensureDirectory_of_hasDirectory h hp).symm.trans hmissing

/-- Where nothing stood, a directory stands once it is made. -/
theorem hasDirectory_put {fewer : Nat} (hp : fs.follow false p = .ok (place, fewer))
    (hl : fs.lookup place = none) : (fs.put place .directory).HasDirectory p := by
  have hfollow := follow_true_of_vacant hp hl
  refine ⟨place, fewer, ?_, ?_⟩
  · rw [(within_put hl).keeps.follow_eq (by simp [hfollow]), hfollow]
  · rw [lookup_put (ne_directory_of_vacant hl), if_pos rfl]

/-! ### All directories of a path -/

/-- Making a directory, with the disk behind it. -/
def ensured (fs : FileSystem) (p : Path) : Except DiskError Unit × FileSystem :=
  match fs.ensureDirectory p with
  | .ok fs' => (.ok (), fs')
  | .error e => (.error e, fs)

/-- Where nothing is missing above it, only the directory itself can be made. -/
theorem ensureDirectories_of_not_missing (h : ¬ fs.Missing p) :
    fs.ensureDirectories p = fs.ensured p := by
  rw [ensureDirectories, ensured]
  split
  · next hmade => rw [hmade]
  · next path? hmissing => exact absurd ⟨path?, hmissing⟩ h
  · next e _ hrefused => rw [hrefused]

/-- Where something is missing above it, a directory is made once that is. -/
theorem ensureDirectories_of_made (h : fs.Missing p)
    (hparent : fs.ensureDirectories p.parent = (.ok (), fs')) :
    fs.ensureDirectories p = fs'.ensured p := by
  have hn := h.names_ne_nil
  obtain ⟨path?, hmissing⟩ := h
  rw [ensureDirectories, hmissing]
  dsimp only
  rw [if_neg hn, hparent]
  rfl

/-- Where something is missing above it and cannot be made, a directory is not made either. -/
theorem ensureDirectories_of_unmade {e : DiskError} (h : fs.Missing p)
    (hparent : fs.ensureDirectories p.parent = (.error e, fs')) :
    fs.ensureDirectories p = (.error e, fs') := by
  have hn := h.names_ne_nil
  obtain ⟨path?, hmissing⟩ := h
  rw [ensureDirectories, hmissing]
  dsimp only
  rw [if_neg hn, hparent]

/-- How the making of all directories of a path ends. -/
inductive Ensured (fs : FileSystem) (p : Path) : Except DiskError Unit × FileSystem → Prop
  /-- All are there. -/
  | made {fs' : FileSystem} (hwithin : fs.Within fs') (hp : fs'.HasDirectory p)
    (hshort : ¬ fs.StopsShort p) : Ensured fs p (.ok (), fs')
  /-- The last one cannot be made. -/
  | blocked {fs' : FileSystem} {refusal : Refusal} (hwithin : fs.Within fs')
    (hp : fs'.ensureDirectory p = .error (.refused refusal (some p.text)))
    (hfound : refusal ≠ .notFound) (hshort : ¬ fs.StopsShort p) :
    Ensured fs p (.error (.refused refusal (some p.text)), fs')
  /-- One above it cannot be made. -/
  | stopped {fs' : FileSystem} {q : Path} {refusal : Refusal} (hwithin : fs.Within fs')
    (hmissing : fs.Missing p)
    (hparent : fs.ensureDirectories p.parent = (.error (.refused refusal (some q.text)), fs'))
    (habove : q.IsAbove p) (hq : fs'.ensureDirectory q = .error (.refused refusal (some q.text)))
    (hfound : refusal ≠ .notFound) : Ensured fs p (.error (.refused refusal (some q.text)), fs')

/-- Once nothing is missing above it, a directory is there, is made, or is kept from being made. -/
theorem ensured_of_not_missing (h : p.Usable) (hwithin : fs.Within fs') (hp : ¬ fs'.Missing p)
    (hshort : ¬ fs.StopsShort p) : Ensured fs p (fs'.ensured p) := by
  rw [ensured]
  cases fs'.ensuring h with
  | there hensure hdirectory =>
    rw [hensure]
    exact .made hwithin hdirectory hshort
  | made hensure hplace hl =>
    rw [hensure]
    exact .made (hwithin.trans (within_put hl)) (hasDirectory_put hplace hl) hshort
  | missing hensure _ => exact absurd ⟨_, hensure⟩ hp
  | blocked hensure _ hfound _ =>
    rw [hensure]
    exact .blocked hwithin hensure hfound hshort

/-- All directories of a path are made, or one cannot be: the last of them or one above it. -/
theorem ensureDirectories_ensured (fs : FileSystem) (h : p.Usable) :
    Ensured fs p (fs.ensureDirectories p) := by
  -- By induction on the number of names; where something is missing, the parent comes first.
  induction hlength : p.names.length using Nat.strongRecOn generalizing p with
  | _ length ih =>
    by_cases hp : fs.Missing p
    · have hn := hp.names_ne_nil
      have habove := Path.isAbove_parent hn
      have husable := habove.usable h
      have hparent := ih _ (hlength ▸ Path.length_parent_lt hn) husable rfl
      generalize hresult : fs.ensureDirectories p.parent = result at hparent
      cases hparent with
      | made hwithin hdirectory _ =>
        rw [ensureDirectories_of_made hp hresult]
        refine ensured_of_not_missing h hwithin (fun hmissing => ?_) ?_
        · exact follow_of_parent hn hdirectory (missing_iff.mp hmissing).2
        · rintro ⟨-, e, fs'', hunmade, -⟩
          cases hresult.symm.trans hunmade
      | blocked hwithin hblocked hfound _ =>
        rw [ensureDirectories_of_unmade hp hresult]
        exact .stopped hwithin hp hresult habove hblocked hfound
      | stopped hwithin _ _ habove' hblocked hfound =>
        rw [ensureDirectories_of_unmade hp hresult]
        exact .stopped hwithin hp hresult (habove'.trans habove) hblocked hfound
    · rw [ensureDirectories_of_not_missing hp]
      exact ensured_of_not_missing h (.refl fs) hp fun hshort => hp hshort.1

theorem ensureDirectories_of_not_usable (h : ¬ p.Usable) :
    ∃ e, p.Unusable e ∧ ∀ fs : FileSystem, fs.ensureDirectories p = (.error e, fs) := by
  obtain ⟨e, he, hrefused⟩ := ensureDirectory_of_not_usable h
  refine ⟨e, he, fun fs => ?_⟩
  rw [ensureDirectories_of_not_missing fun hmissing => h (missing_iff.mp hmissing).1, ensured,
    hrefused]

/-! ### A second time -/

/-- Where a directory stands, nothing is made. -/
theorem ensureDirectories_of_hasDirectory (h : p.Usable) (hp : fs.HasDirectory p) :
    fs.ensureDirectories p = (.ok (), fs) := by
  rw [ensureDirectories_of_not_missing (hp.not_missing h), ensured,
    ensureDirectory_of_hasDirectory h hp]

/-- Where something keeps a directory from being made, nothing is made. -/
theorem ensureDirectories_of_blocked
    (h : fs.ensureDirectory p = .error (.refused refusal (some p.text)))
    (hfound : refusal ≠ .notFound) :
    ¬ fs.Missing p ∧
      fs.ensureDirectories p = (.error (.refused refusal (some p.text)), fs) := by
  have hnot : ¬ fs.Missing p := by
    rintro ⟨path?, hmissing⟩
    cases h.symm.trans hmissing
    exact hfound rfl
  refine ⟨hnot, ?_⟩
  rw [ensureDirectories_of_not_missing hnot, ensured, h]

/-- Behind a directory that cannot be made all others are missed as long as that one is. -/
theorem ensureDirectories_behind_missing
    (hq : fs.ensureDirectory q = .error (.refused refusal (some q.text)))
    (hfound : refusal ≠ .notFound) (hbarrier : ¬ fs.HasDirectory q ∧ fs.barrier q = .notFound)
    (h : p.Usable) (habove : q.IsAbove p) :
    fs.Missing p ∧ fs.ensureDirectories p = (.error (.refused refusal (some q.text)), fs) := by
  induction hlength : p.names.length using Nat.strongRecOn generalizing p with
  | _ length ih =>
    have hmissing : fs.Missing p :=
      missing_iff.mpr ⟨h, hbarrier.2 ▸ follow_of_barrier hbarrier.1 habove false⟩
    obtain ⟨hn, rfl | habove'⟩ := habove.eq_parent_or
    · exact ⟨hmissing, ensureDirectories_of_unmade hmissing
        (ensureDirectories_of_blocked hq hfound).2⟩
    · have husable := (Path.isAbove_parent hn).usable h
      have hparent := ih _ (hlength ▸ Path.length_parent_lt hn) husable habove' rfl
      exact ⟨hmissing, ensureDirectories_of_unmade hmissing hparent.2⟩

/-- What keeps all paths behind a path back keeps their directories from being made. -/
theorem ensureDirectory_of_barrier (h : p.Usable) (hq : ¬ fs.HasDirectory q)
    (hfound : fs.barrier q ≠ .notFound) (habove : q.IsAbove p) :
    fs.ensureDirectory p = .error (.refused (fs.barrier q) (some p.text)) := by
  have hfollow := follow_of_barrier hq habove
  have hmake : fs.makeDirectory p = .error (.refused (fs.barrier q) (some p.text)) := by
    rw [makeDirectory_of_usable h, hfollow]
  rw [ensureDirectory_of_refused hmake hfound, isDirectory_of_usable h, hfollow]
  cases htells : (fs.barrier q).tellsAbsence <;> simp [htells]

end FileSystem

/-! ### Messages -/

/-- A message begins with the number of the refusal. -/
theorem Refusal.message_eq (r : Refusal) (path? : Option Letters) :
    ∃ rest, (r.message path?).toList =
      "[Errno ".toList ++ (r.number.repr.toList ++ ']' :: rest) := by
  obtain ⟨rest, hrest⟩ : ∃ rest, r.message path? = "[Errno " ++ r.number.repr ++ "] " ++ rest :=
    ⟨_, String.append_assoc⟩
  have hclose : "] ".toList = [']', ' '] := rfl
  refine ⟨' ' :: rest.toList, ?_⟩
  rw [hrest]
  simp only [String.toList_append, hclose, List.append_assoc, List.cons_append, List.nil_append]

/-- The number of a refusal can be told from its message. -/
theorem Refusal.number_of_message {r r' : Refusal} {path? path?' : Option Letters}
    (h : r.message path? = r'.message path?') : r.number = r'.number := by
  have hends : ∀ (n : Nat) (rest : List Char),
      (n.repr.toList ++ ']' :: rest).takeWhile (· ≠ ']') = n.repr.toList := by
    intro n rest
    have hall : ∀ c ∈ n.repr.toList, decide (c ≠ ']') = true := by
      rintro c hc
      refine decide_eq_true ?_
      rintro rfl
      exact Text.not_mem_repr (by decide) n hc
    rw [List.takeWhile_append_of_pos hall, List.takeWhile_cons]
    simp
  obtain ⟨rest, hm⟩ := r.message_eq path?
  obtain ⟨rest', hm'⟩ := r'.message_eq path?'
  rw [h, hm'] at hm
  have hnumbers := List.append_cancel_left hm
  exact (Text.eq_of_toList_repr (by rw [← hends _ rest', hnumbers, hends])).symm

/-- The message on a refusal grows with the path that it tells of. -/
theorem Refusal.message_ne_of_above {q p : Path} (refusal : Refusal) (hn : q.names ≠ [])
    (habove : q.IsAbove p) : refusal.message (some p.text) ≠ refusal.message (some q.text) := by
  obtain ⟨rest, htext⟩ := habove.text_eq hn
  have hlt : (Text.quoted q.text).length < (Text.quoted p.text).length := by
    rw [htext]
    exact Text.length_quoted_lt (List.cons_ne_nil _ _)
  intro hmessage
  have hlength := congrArg String.length hmessage
  simp only [message, String.length_append] at hlength
  omega

namespace FileSystem

variable {fs fs' : FileSystem} {p q : Path} {refusal : Refusal}

/-- The refusals that a path meets behind another path that was refused. -/
theorem message_of_barrier (hq : ¬ fs.HasDirectory q) (habove : q.IsAbove p)
    (hbarrier : fs.barrier q = refusal ∨
      refusal = .exists ∧ (fs.barrier q).tellsAbsence = true) :
    (fs.barrier q).message (some p.text) ≠ refusal.message (some q.text) := by
  rcases hbarrier with rfl | ⟨rfl, htells⟩
  · exact Refusal.message_ne_of_above _ (mt hasDirectory_of_names_eq_nil hq) habove
  · -- That something stands there already does not tell that no directory is there.
    intro hmessage
    rw [Refusal.tellsAbsence, Refusal.number_of_message hmessage] at htells
    exact absurd htells (by decide)

/-- Making the directories of a path a second time makes nothing, and ends as before, unless the
making stopped short: then it is the path itself that is refused. -/
theorem ensureDirectories_again (fs : FileSystem) (p : Path) {r : Except DiskError Unit}
    (h : fs.ensureDirectories p = (r, fs')) :
    (¬ fs.StopsShort p ∧ fs'.ensureDirectories p = (r, fs')) ∨
      (fs.StopsShort p ∧ ∃ (q : Path) (refusal refusal' : Refusal), q.IsAbove p ∧
        r = .error (.refused refusal (some q.text)) ∧
        fs'.ensureDirectories p = (.error (.refused refusal' (some p.text)), fs') ∧
        (refusal' = refusal ∨ refusal = .exists ∧ refusal'.tellsAbsence = true) ∧
        refusal'.message (some p.text) ≠ refusal.message (some q.text)) := by
  by_cases husable : p.Usable
  · have hensured := fs.ensureDirectories_ensured husable
    rw [h] at hensured
    cases hensured with
    | made hwithin hdirectory hshort =>
      exact .inl ⟨hshort, ensureDirectories_of_hasDirectory husable hdirectory⟩
    | blocked hwithin hblocked hfound hshort =>
      exact .inl ⟨hshort, (ensureDirectories_of_blocked hblocked hfound).2⟩
    | @stopped _ q refusal hwithin hmissing hparent habove hq hfound =>
      cases fs'.ensuring (habove.usable husable) with
      | there hensure _ => cases hensure.symm.trans hq
      | made hensure _ _ => cases hensure.symm.trans hq
      | missing hensure _ =>
        cases hensure.symm.trans hq
        exact absurd rfl hfound
      | blocked hensure hnone _ hbarrier =>
        cases hensure.symm.trans hq
        by_cases hpassed : fs'.barrier q = .notFound
        · obtain ⟨hmissing', hagain⟩ :=
            ensureDirectories_behind_missing hq hfound ⟨hnone, hpassed⟩ husable habove
          refine .inl ⟨?_, hagain⟩
          rintro ⟨-, e, fs'', hunmade, hnot⟩
          cases hparent.symm.trans hunmade
          exact hnot hmissing'
        · have hbarrier := hbarrier.resolve_left hpassed
          have hblocked := ensureDirectory_of_barrier husable hnone hpassed habove
          obtain ⟨hnot, hagain⟩ := ensureDirectories_of_blocked hblocked hpassed
          exact .inr ⟨⟨hmissing, _, fs', hparent, hnot⟩, q, refusal, fs'.barrier q, habove, rfl,
            hagain, hbarrier, message_of_barrier hnone habove hbarrier⟩
  · obtain ⟨e, he, hrefused⟩ := ensureDirectories_of_not_usable husable
    have hsame := hrefused fs
    rw [h] at hsame
    cases hsame
    exact .inl ⟨fun hshort => husable (missing_iff.mp hshort.1).1, hrefused _⟩

end FileSystem

end CallTrace
