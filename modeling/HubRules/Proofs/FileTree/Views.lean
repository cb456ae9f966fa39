import HubRules.Proofs.FileTree.Growth

/-!
# What a path shows

What is found at a path depends on the place where the path ends and on the folders on the
way. In a tree that grows the folders stay, so that only two kinds of places can change what
is found: the one where the path ends, and those from which it goes up again, where a new
folder can open a way that was closed before. These are the stops of a path
(`shown?_of_stops`).
-/

namespace HubRules.FileTree

/-- What is found at a path. -/
def shown? (tree : FileTree) (path : String) : Option Entry :=
  match tree.locate path with
  | .ok place => tree.at? place
  | .error _ => none

/-- The places where names end or go up again, from a place on. -/
def stopsFrom : List String → List String → List (List String)
  | here, [] => [here]
  | here, name :: rest =>
    if name = ".." then here :: stopsFrom (above here) rest else stopsFrom (here ++ [name]) rest

/-- The places where a path ends or goes up again. -/
def stops (path : String) : List (List String) := stopsFrom [] (namesOf path)

variable {tree before after : FileTree} {path : String}

theorem exists?_eq :
    tree.exists? path = (tree.shown? path).any fun entry =>
      decide (entry = .folder) || !FilePath.endsAsFolder path := by
  unfold exists? shown?
  cases tree.locate path with
  | error cause => rfl
  | ok place =>
    cases hplace : tree.at? place with
    | none => simp [hplace]
    | some entry => cases entry <;> simp [hplace]

theorem readText_eq_ok_iff {text : String} :
    tree.readText path = .ok text ↔
      tree.shown? path = some (.file (.text text)) ∧ FilePath.endsAsFolder path = false := by
  unfold readText read shown?
  cases tree.locate path with
  | error cause => simp [bind, Except.bind]
  | ok place =>
    simp only [bind, Except.bind, throw, throwThe, MonadExceptOf.throw, pure, Except.pure]
    cases hplace : tree.at? place with
    | none => simp
    | some entry =>
      cases entry with
      | folder => simp
      | file content =>
        cases FilePath.endsAsFolder path with
        | true => simp
        | false => cases content <;> simp

/-- Whether there is anything at a path depends on what is found there. -/
theorem exists?_of_shown? {other : FileTree} (h : other.shown? path = tree.shown? path) :
    other.exists? path = tree.exists? path := by
  rw [exists?_eq, exists?_eq, h]

theorem readText_of_shown? {other : FileTree} (h : other.shown? path = tree.shown? path)
    {text : String} (hread : tree.readText path = .ok text) : other.readText path = .ok text := by
  rw [readText_eq_ok_iff, h]
  exact readText_eq_ok_iff.1 hread

theorem mem_stopsFrom_of_locateFrom {here names place : List String}
    (h : tree.locateFrom here names = .ok place) : place ∈ stopsFrom here names := by
  induction names generalizing here with
  | nil =>
    obtain rfl : here = place := Except.ok.inj h
    exact List.mem_singleton_self here
  | cons name rest ih =>
    unfold locateFrom at h
    unfold stopsFrom
    split at h
    · cases h
    · cases h
    · split at h
      · next hup =>
        rw [if_pos hup]
        exact List.mem_cons_of_mem _ (ih h)
      · next hup =>
        rw [if_neg hup]
        exact ih h

theorem mem_stops_of_locate {place : List String} (h : tree.locate path = .ok place) :
    place ∈ stops path := by
  unfold locate at h
  split at h
  · cases h
  · split at h
    · cases h
    · exact mem_stopsFrom_of_locateFrom h

/-- Names that start where there was nothing lead to a place where there was nothing, if
nothing new lies at their stops. -/
theorem at?_eq_none_of_locateFrom (hrooted : before.IsRooted) {here names place : List String}
    (hstops : ∀ stop ∈ stopsFrom here names, after.at? stop = before.at? stop)
    (hhere : before.at? here = none) (h : after.locateFrom here names = .ok place) :
    before.at? place = none := by
  induction names generalizing here with
  | nil =>
    obtain rfl : here = place := Except.ok.inj h
    exact hhere
  | cons name rest ih =>
    unfold locateFrom at h
    unfold stopsFrom at hstops
    split at h
    · cases h
    · cases h
    · next hfolder =>
      split at h
      · next hup =>
        -- the names cannot go up from a place where there is nothing
        rw [if_pos hup] at hstops
        rw [hstops here List.mem_cons_self, hhere] at hfolder
        cases hfolder
      · next hup =>
        rw [if_neg hup] at hstops
        refine ih hstops ?_ h
        cases hnext : before.at? (here ++ [name]) with
        | none => rfl
        | some entry =>
          have := hrooted (here ++ [name]) (by rw [hnext]; rfl)
          rw [List.dropLast_concat, hhere] at this
          cases this

/-- Where names lead after a tree has grown they led before, or there was nothing. -/
theorem locateFrom_or_of_grows (hrooted : before.IsRooted) (hgrows : Grows before after)
    {here names place : List String}
    (hstops : ∀ stop ∈ stopsFrom here names, after.at? stop = before.at? stop)
    (h : after.locateFrom here names = .ok place) :
    before.locateFrom here names = .ok place ∨ before.at? place = none := by
  -- the two trees are followed together, up to the first place where there was nothing before
  induction names generalizing here with
  | nil => exact .inl h
  | cons name rest ih =>
    cases hhere : before.at? here with
    | none => exact .inr (at?_eq_none_of_locateFrom hrooted hstops hhere h)
    | some entry =>
      unfold locateFrom at h ⊢
      cases entry with
      | file content =>
        obtain ⟨new, hnew⟩ := hgrows.file here content hhere
        rw [hnew] at h
        cases h
      | folder =>
        rw [hgrows.folder here hhere] at h
        rw [hhere]
        refine ih (fun stop hstop => hstops stop ?_) h
        unfold stopsFrom
        split at hstop
        · next hup =>
          rw [if_pos hup]
          exact List.mem_cons_of_mem _ hstop
        · next hup =>
          rw [if_neg hup]
          exact hstop

/-- A tree that grows shows the same at a path, if nothing changes at the path's stops. -/
theorem shown?_of_stops (hrooted : before.IsRooted) (hgrows : Grows before after)
    (hstops : ∀ stop ∈ stops path, after.at? stop = before.at? stop) :
    after.shown? path = before.shown? path := by
  cases hafter : after.locate path with
  | ok place =>
    have hplace := hstops place (mem_stops_of_locate hafter)
    -- the path led to the same place before, or there was nothing there
    have hold : before.locate path = .ok place ∨ before.at? place = none := by
      unfold locate at hafter ⊢
      split at hafter
      · cases hafter
      · split at hafter
        · cases hafter
        · next hempty hvalid =>
          rw [if_neg hempty, if_neg hvalid]
          exact locateFrom_or_of_grows hrooted hgrows hstops hafter
    unfold shown?
    rw [hafter]
    rcases hold with hold | hold
    · rw [hold]
      exact hplace
    · simp only [hplace, hold]
      cases hbefore : before.locate path with
      | error cause => rfl
      | ok other =>
        have heq := hgrows.locate hbefore
        rw [hafter] at heq
        rw [← heq]
        exact hold.symm
  | error cause =>
    unfold shown?
    rw [hafter]
    cases hbefore : before.locate path with
    | error cause => rfl
    | ok place =>
      rw [hgrows.locate hbefore] at hafter
      cases hafter

end HubRules.FileTree
