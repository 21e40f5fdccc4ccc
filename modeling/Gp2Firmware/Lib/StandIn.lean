import Mathlib.Data.List.TakeWhile
import Gp2Firmware.Lib.Loop

/-!
# Serving requests by items that may fail for good

Every key is served by an item, found by one look into a table.  When the item
fails, the next spare is entered into the table, under the item that failed and
not under the key, and the same key is tried again; when there is no spare, the
table is switched off.  `succeeds` says, without retries, for which requests
this comes to an end.
-/

namespace Gp2Firmware.Lib.StandIn

variable {κ : Type*} [DecidableEq κ]

/-- The table, whether it is looked at, and the spares in the order in which
they are handed out. -/
structure Table (κ : Type*) where
  redirect : κ → κ
  on : Bool
  spares : List κ

/-- The item that serves a key. -/
def Table.lookup (t : Table κ) (key : κ) : κ :=
  if t.on then t.redirect key else key

/-- The table after the failure of an item. -/
def Table.replace (t : Table κ) (item : κ) : Table κ :=
  match t.spares with
  | [] => { t with on := false }
  | spare :: left => ⟨Function.update t.redirect item spare, true, left⟩

/-- One attempt at the first of the requests that are left. -/
def attempt (fails : κ → Bool) :
    Table κ × List κ → (Table κ × List κ) ⊕ Unit
  | (_, []) => .inr ()
  | (t, key :: rest) =>
      if fails (t.lookup key) then .inl (t.replace (t.lookup key), key :: rest)
      else if rest = [] then .inr ()
      else .inl (t, rest)

/-- The requests that can be served.  A key that stands for itself and fails
needs a next spare that works; a key whose stand-in fails uses up all spares,
so from it on every key has to do without the table. -/
def succeeds (fails : κ → Bool) : Table κ → List κ → Bool
  | _, [] => true
  | t, key :: rest =>
      if fails (t.lookup key) then
        if t.lookup key = key then
          match t.spares.dropWhile fun spare => decide (spare = key) with
          | [] => false
          | spare :: left =>
              !fails spare &&
                succeeds fails
                  ⟨Function.update t.redirect key spare, true, left⟩ rest
        else (key :: rest).all fun other => !fails other
      else succeeds fails t rest

variable {fails : κ → Bool} {t : Table κ} {key : κ} {rest : List κ}

theorem Table.replace_of_nil (noSpare : t.spares = []) (item : κ) :
    t.replace item = ⟨t.redirect, false, []⟩ := by
  rw [Table.replace, noSpare]

theorem Table.replace_of_cons {spare : κ} {left : List κ}
    (spares : t.spares = spare :: left) (item : κ) :
    t.replace item = ⟨Function.update t.redirect item spare, true, left⟩ := by
  rw [Table.replace, spares]

theorem attempt_failed (failed : fails (t.lookup key) = true) :
    attempt fails (t, key :: rest) =
      .inl (t.replace (t.lookup key), key :: rest) := by
  rw [attempt, if_pos failed]

theorem terminates_iff_of_served (served : fails (t.lookup key) = false) :
    Loop.Terminates (attempt fails) (t, key :: rest) ↔
      Loop.Terminates (attempt fails) (t, rest) := by
  cases rest with
  | nil =>
      have last : attempt fails (t, [key]) = .inr () := by
        rw [attempt, served]
        rfl
      have none : attempt fails (t, []) = .inr () := rfl
      exact iff_of_true (Loop.terminates_of_leaves last)
        (Loop.terminates_of_leaves none)
  | cons next rest =>
      apply Loop.terminates_iff_of_goes
      rw [attempt, served]
      rfl

/-- Without table and spares every key has to serve itself. -/
theorem terminates_iff_of_off (off : t.on = false) (noSpare : t.spares = [])
    (keys : List κ) :
    Loop.Terminates (attempt fails) (t, keys) ↔
      ∀ other ∈ keys, fails other = false := by
  have itself : ∀ key, t.lookup key = key := by
    intro key
    rw [Table.lookup, off]
    rfl
  induction keys with
  | nil =>
      have leaves : attempt fails (t, []) = .inr () := rfl
      apply iff_of_true (Loop.terminates_of_leaves leaves)
      intro other member
      cases member
  | cons key rest inductionHypothesis =>
      cases served : fails key with
      | false =>
          rw [terminates_iff_of_served (by rw [itself]; exact served),
            List.forall_mem_cons, and_iff_right served]
          exact inductionHypothesis
      | true =>
          -- nothing changes, so the same attempt is made for ever
          have same : t.replace (t.lookup key) = t := by
            rw [Table.replace_of_nil noSpare, ← off, ← noSpare]
          have failed : fails (t.lookup key) = true := by
            rw [itself]
            exact served
          have goes : attempt fails (t, key :: rest) =
              .inl (t.replace (t.lookup key), key :: rest) := attempt_failed failed
          rw [same] at goes
          apply iff_of_false
          · apply @Loop.not_terminates _ _ _ (t, key :: rest)
              fun state => state = (t, key :: rest)
            · intro state here
              rw [here]
              exact ⟨_, goes, rfl⟩
            · rfl
          · intro all
            rw [all key List.mem_cons_self] at served
            cases served

/-- A stand-in that fails is looked up again and again, until the table is
switched off. -/
theorem terminates_iff_of_standIn_failed
    (moved : t.lookup key ≠ key) (failed : fails (t.lookup key) = true) :
    Loop.Terminates (attempt fails) (t, key :: rest) ↔
      ∀ other ∈ key :: rest, fails other = false := by
  have on : t.on = true := by
    cases state : t.on with
    | true => rfl
    | false =>
        apply absurd _ moved
        rw [Table.lookup, state]
        rfl
  induction left : t.spares generalizing t with
  | nil =>
      rw [Loop.terminates_iff_of_goes (attempt_failed failed),
        Table.replace_of_nil left]
      exact terminates_iff_of_off rfl rfl _
  | cons spare spares inductionHypothesis =>
      have same : (t.replace (t.lookup key)).lookup key = t.lookup key := by
        rw [Table.replace_of_cons left, Table.lookup, if_pos rfl]
        change Function.update t.redirect (t.lookup key) spare key = _
        rw [Function.update_of_ne moved.symm, Table.lookup, if_pos on]
      rw [Loop.terminates_iff_of_goes (attempt_failed failed)]
      apply inductionHypothesis
      · rw [same]
        exact moved
      · rw [same]
        exact failed
      · rw [Table.replace_of_cons left]
      · rw [Table.replace_of_cons left]

/-- A key that stands for itself and fails. -/
theorem terminates_iff_of_itself_failed
    (itself : t.lookup key = key) (failed : fails key = true)
    (later : ∀ t : Table κ, Loop.Terminates (attempt fails) (t, rest) ↔
      succeeds fails t rest = true) :
    Loop.Terminates (attempt fails) (t, key :: rest) ↔
      (match t.spares.dropWhile fun spare => decide (spare = key) with
      | [] => false
      | spare :: left =>
          !fails spare &&
            succeeds fails
              ⟨Function.update t.redirect key spare, true, left⟩ rest) =
        true := by
  have failedItem : fails (t.lookup key) = true := by
    rw [itself]
    exact failed
  induction spares : t.spares generalizing t with
  | nil =>
      rw [Loop.terminates_iff_of_goes (attempt_failed failedItem),
        Table.replace_of_nil spares, terminates_iff_of_off rfl rfl]
      apply iff_of_false
      · intro all
        rw [all key List.mem_cons_self] at failed
        cases failed
      · exact Bool.false_ne_true
  | cons spare left inductionHypothesis =>
      have next : t.replace (t.lookup key) =
          ⟨Function.update t.redirect key spare, true, left⟩ := by
        rw [Table.replace_of_cons spares, itself]
      have found : (t.replace (t.lookup key)).lookup key = spare := by
        rw [next, Table.lookup, if_pos rfl]
        exact Function.update_self key spare t.redirect
      rw [Loop.terminates_iff_of_goes (attempt_failed failedItem)]
      by_cases same : spare = key
      · have nextSpares : (t.replace (t.lookup key)).spares = left := by
          rw [next]
        have again : fails ((t.replace (t.lookup key)).lookup key) = true := by
          rw [found, same]
          exact failed
        apply (inductionHypothesis (found.trans same) again nextSpares).trans
        simp only [next, same, List.dropWhile_cons, decide_true, if_true,
          Function.update_idem]
      · simp only [List.dropWhile_cons, same, decide_false, Bool.false_eq_true,
          if_false]
        cases spareFails : fails spare with
        | true =>
            rw [terminates_iff_of_standIn_failed (by rw [found]; exact same)
              (by rw [found]; exact spareFails)]
            apply iff_of_false
            · intro all
              rw [all key List.mem_cons_self] at failed
              cases failed
            · rw [Bool.not_true, Bool.false_and]
              exact Bool.false_ne_true
        | false =>
            rw [terminates_iff_of_served (by rw [found]; exact spareFails), later,
              next, Bool.not_false, Bool.true_and]

/-- The loop of attempts comes to an end for these requests and no others. -/
theorem terminates_iff_succeeds (t : Table κ) (keys : List κ) :
    Loop.Terminates (attempt fails) (t, keys) ↔ succeeds fails t keys = true := by
  induction keys generalizing t with
  | nil =>
      have leaves : attempt fails (t, []) = .inr () := rfl
      exact iff_of_true (Loop.terminates_of_leaves leaves) rfl
  | cons key rest inductionHypothesis =>
      rw [succeeds]
      cases served : fails (t.lookup key) with
      | false =>
          rw [terminates_iff_of_served served, inductionHypothesis]
          exact Iff.rfl
      | true =>
          rw [if_pos rfl]
          by_cases itself : t.lookup key = key
          · rw [if_pos itself]
            apply terminates_iff_of_itself_failed itself _ inductionHypothesis
            rw [← itself]
            exact served
          · rw [if_neg itself, terminates_iff_of_standIn_failed itself served]
            simp only [List.all_eq_true, Bool.not_eq_true']

/-- A request that neither its key nor what serves it nor any spare can serve
does not come to an end. -/
theorem not_succeeds {keys : List κ} (member : key ∈ keys)
    (keyFails : fails key = true) (itemFails : fails (t.lookup key) = true)
    (sparesFail : ∀ spare ∈ t.spares, fails spare = true) :
    succeeds fails t keys = false := by
  induction keys with
  | nil => cases member
  | cons first rest inductionHypothesis =>
      rw [succeeds]
      split
      · split
        · -- whatever spare comes next fails
          split
          · rfl
          · rename_i spare left shape
            have isSpare : spare ∈ t.spares :=
              (List.dropWhile_sublist _).subset
                (by rw [shape]; exact List.mem_cons_self)
            rw [sparesFail spare isSpare]
            rfl
        · rw [List.all_eq_false]
          exact ⟨key, member, by rw [keyFails]; exact Bool.false_ne_true⟩
      · rename_i served
        rw [List.mem_cons] at member
        cases member with
        | inl same =>
            rw [← same] at served
            exact absurd itemFails served
        | inr later => exact inductionHypothesis later

end Gp2Firmware.Lib.StandIn
