import AnnotatedApi.Proofs.TypeExpr.Locality
import AnnotatedApi.Proofs.TypeExpr.Plans

/-! Why the reading of a type expression ends. Main statement: each call is made further on in the text, or
at the same place for a lower level of the grammar, and so the length of the text bounds how deep calls are
nested. -/
namespace AnnotatedApi.TypeExpr

open Text

namespace Step

/-- The rank of a step among those that start at the same place. Loops are above all levels of the
grammar: no step starts one before it has read something. -/
def level : Step → Nat
  | atom => 0
  | marked => 1
  | suffixed => 2
  | alternation => 3
  | alternatives | arrays _ | arguments => 4

/-- The loops over `|`, `[]` and `,`. Each round but the first is a call of the loop itself. -/
def isLoop : Step → Bool
  | alternatives | arrays _ | arguments => true
  | alternation | suffixed | marked | atom => false

/-- The loops that may end before they have read anything. -/
def mayStay : Step → Bool
  | alternatives | arrays _ => true
  | alternation | suffixed | marked | atom | arguments => false

theorem level_le (g : Step) : g.level ≤ 4 := by
  unfold level
  split <;> omega

private theorem level_of_isLoop {g : Step} (h : g.isLoop) : g.level = 4 := by
  cases g with
  | alternatives | arrays | arguments => rfl
  | alternation | suffixed | marked | atom => cases h

end Step

/-- `r` is what is left of `s` when something has been read. -/
def Later (s r : List Char) : Prop := r <:+ s ∧ r.length < s.length

theorem Later.of_suffix {s r l : List Char} (h : Later s r) (hl : l <:+ r) : Later s l :=
  ⟨hl.trans h.1, Nat.lt_of_le_of_lt hl.length_le h.2⟩

section

variable {s : List Char} {r : After s}

theorem later_of_trimStart {o : List Char} (h : trimStart s = o ++ r.1) : Later s r.1 :=
  ⟨suffix_of_trimStart h, r.2⟩

private theorem later_of_token? {c : Char} (h : token? s = some (c, r)) : Later s r.1 :=
  later_of_trimStart (o := [c]) (token?_eq_some_iff.1 h)

private theorem later_of_eat? {c : Char} (h : eat? c s = some r) : Later s r.1 :=
  later_of_trimStart (o := [c]) (eat?_eq_some_iff.1 h)

private theorem later_of_brackets? (h : brackets? s = some r) : Later s r.1 :=
  later_of_trimStart (o := ['[', ']']) (brackets?_eq_some_iff.1 h)

private theorem later_of_opening? (h : opening? s = some r) : Later s r.1 := by
  obtain ⟨o, -, hs⟩ := opening?_eq_some_iff.1 h
  exact later_of_trimStart hs

end

theorem suffix_of_reads_atom {s r : List Char} {t : TypeExpr} (h : Reads (atom s) t r) : r <:+ s := by
  obtain ⟨w, u, hs, -⟩ := atom_derives (fun r _ => derived r) h
  exact ⟨w ++ u, by rw [hs, List.append_assoc]⟩

theorem suffix_of_reads_marked {s r : List Char} {t : TypeExpr} (h : Reads (marked s) t r) :
    r <:+ s := by
  obtain ⟨u, full, hs, -⟩ := marked_derives (fun r _ => derived r) h
  exact ⟨u, hs.symm⟩

section

variable {g : Step} {s r : List Char} {a : g.Value}

theorem read_suffix (h : read g s = .ok (a, r)) : r <:+ s := by
  cases g with
  | alternation => exact (within_alternation s).reads (plain_eq_ok_iff.1 h)
  | alternatives => exact (within_alternatives s).reads (plain_eq_ok_iff.1 h)
  | suffixed => exact (within_suffixed s).reads (plain_eq_ok_iff.1 h)
  | arrays t =>
    cases h
    exact arrays_suffix t s
  | marked => exact suffix_of_reads_marked (plain_eq_ok_iff.1 h)
  | atom => exact suffix_of_reads_atom (plain_eq_ok_iff.1 h)
  | arguments => exact (within_arguments s).reads (plain_eq_ok_iff.1 h)

theorem read_later (hg : g.mayStay = false) (h : read g s = .ok (a, r)) : Later s r := by
  refine ⟨read_suffix h, ?_⟩
  cases g with
  | alternation | suffixed | marked | atom | arguments =>
    obtain ⟨hl, -⟩ := plain_eq_ok_iff.1 h
    exact hl
  | alternatives | arrays => cases hg

theorem readings_later (h : readings g s = some (.ok (a, r))) (hg : g.mayStay = false) : Later s r :=
  read_later hg (Option.some.inj h)

end

/-- A call that leads down from a step on a text: it is made further on, or at the same place for a
lower level. -/
inductive Below (g : Step) (s : List Char) : Call → Prop
  | later {g' : Step} {r : List Char} : Later s r → Below g s ⟨g', r⟩
  | lower {g' : Step} : g'.level < g.level → Below g s ⟨g', s⟩

namespace Below

variable {g : Step} {s : List Char} {c : Call}

theorem suffix (h : Below g s c) : c.text <:+ s := by
  cases h with
  | later hr => exact hr.1
  | lower => exact List.suffix_rfl

theorem measure_lt (h : Below g s c) :
    5 * c.text.length + c.step.level < 5 * s.length + g.level := by
  cases h with
  | @later g' r hr =>
    have hlevel := g'.level_le
    have hlength := hr.2
    dsimp only
    omega
  | lower hlevel => exact Nat.add_lt_add_left hlevel _

end Below

theorem below_of_mem_calls_atom {s : List Char} :
    ∀ c ∈ (plan .atom s).calls readings, Below .atom s c := by
  rw [plan]
  cases ht : token? s with
  | none => exact List.forall_mem_nil _
  | some p =>
    obtain ⟨c, r⟩ := p
    have hs := later_of_token? ht
    dsimp only
    split
    next => exact Plan.forall_calls_last (.later hs) fun _ _ => Plan.calls_close
    next =>
      split
      next => exact List.forall_mem_nil _
      next =>
        split
        next =>
          cases ho : opening? (nameTail r.1).2.1 with
          | none => exact List.forall_mem_nil _
          | some r₁ =>
            have hr₁ : r₁.1 <:+ r.1 := (later_of_opening? ho).1.trans (nameTail_suffix r.1)
            exact Plan.forall_calls_last (.later (hs.of_suffix hr₁)) fun _ _ => rfl
        next => exact List.forall_mem_nil _

/-- All calls of a step lead down. A call behind another one is made on what that one leaves. -/
theorem below_of_mem_calls {g : Step} {s : List Char} :
    ∀ c ∈ (plan g s).calls readings, Below g s c := by
  cases g with
  | alternation =>
    refine Plan.forall_calls_call.2 ⟨.lower (by decide), fun t r hr => ?_⟩
    exact Plan.forall_calls_last (.later (readings_later hr rfl)) fun _ _ => rfl
  | alternatives =>
    rw [plan]
    cases he : eat? '|' s with
    | none => exact List.forall_mem_nil _
    | some r =>
      have hs := later_of_eat? he
      refine Plan.forall_calls_call.2 ⟨.later hs, fun t r₁ hr₁ => ?_⟩
      exact Plan.forall_calls_last (.later (hs.of_suffix (readings_later hr₁ rfl).1)) fun _ _ => rfl
  | suffixed =>
    refine Plan.forall_calls_call.2 ⟨.lower (by decide), fun t r hr => ?_⟩
    exact Plan.forall_calls_last (.later (readings_later hr rfl)) fun _ _ => rfl
  | arrays t =>
    rw [plan]
    cases hb : brackets? s with
    | none => exact List.forall_mem_nil _
    | some r => exact Plan.forall_calls_last (.later (later_of_brackets? hb)) fun _ _ => rfl
  | marked =>
    rw [plan]
    cases hq : eat? '?' s with
    | some r => exact Plan.forall_calls_last (.later (later_of_eat? hq)) fun _ _ => rfl
    | none =>
      cases hn : eat? '!' s with
      | some r => exact Plan.forall_calls_last (.later (later_of_eat? hn)) fun _ _ => rfl
      | none => exact Plan.forall_calls_last (.lower (by decide)) fun _ _ => rfl
  | atom => exact below_of_mem_calls_atom
  | arguments =>
    refine Plan.forall_calls_call.2 ⟨.lower (by decide), fun t r hr => ?_⟩
    cases he : eat? ',' r with
    | none =>
      dsimp only
      rw [Plan.calls_close]
      exact List.forall_mem_nil _
    | some r₁ =>
      have hs := (readings_later hr rfl).of_suffix (later_of_eat? he).1
      exact Plan.forall_calls_last (.later hs) fun _ _ => rfl

/-- The answers of the steps when calls are nested at most `n` deep. -/
def readWithin : Nat → Answers
  | 0, _, _ => none
  | n + 1, g, s => (plan g s).run (readWithin n)

theorem readWithin_eq {n : Nat} {g : Step} {s : List Char} (h : 5 * s.length + g.level < n) :
    readWithin n g s = some (read g s) := by
  induction n generalizing g s with
  | zero => exact absurd h (Nat.not_lt_zero _)
  | succ n ih =>
    have hcalls : ∀ c ∈ (plan g s).calls readings,
        readWithin n c.step c.text = readings c.step c.text := by
      intro c hc
      have hlt := (below_of_mem_calls c hc).measure_lt
      exact ih (by omega)
    rw [readWithin, Plan.run_congr _ hcalls, run_plan]

/-- `s` is what stands in a text from place `p` on, and its first token stands at place `q`. -/
structure StartsAt (text s : List Char) (p q : Nat) : Prop where
  eq_drop : s = text.drop p
  trimStart_eq_drop : trimStart s = text.drop q
  le : p ≤ q
  le_length : q ≤ text.length

private theorem exists_drop_of_suffix {text r : List Char} {p : Nat} (hp : p ≤ text.length)
    (h : r <:+ text.drop p) : ∃ q, r = text.drop q ∧ p ≤ q ∧ q ≤ text.length := by
  have hdrop := List.suffix_iff_eq_drop.1 h
  rw [List.drop_drop, List.length_drop] at hdrop
  exact ⟨_, hdrop, by omega, by omega⟩

theorem exists_startsAt {text r : List Char} {p : Nat} (hp : p ≤ text.length) (h : r <:+ text.drop p) :
    ∃ q q', StartsAt text r q q' ∧ p ≤ q ∧ (r.length < (text.drop p).length → p < q) := by
  obtain ⟨q, rfl, hpq, hq⟩ := exists_drop_of_suffix hp h
  obtain ⟨q', htoken, hqq', hq'⟩ := exists_drop_of_suffix hq (trimStart_suffix (text.drop q))
  refine ⟨q, q', ⟨rfl, htoken, hqq', hq'⟩, hpq, fun hlt => ?_⟩
  rw [List.length_drop, List.length_drop] at hlt
  omega

/-- From each place of a text every step comes to its end, also where the text is malformed. If it succeeds
it has read something, unless it is a loop without a round, and has not run past the end of the text. It
makes each call further on, or at the same place for a lower level; a loop is started, and goes round, only
further on. -/
theorem reading_ends (text : List Char) (p : Nat) (hp : p ≤ text.length) (g : Step) :
    (∀ n, 5 * (text.length - p) + g.level < n →
        readWithin n g (text.drop p) = some (read g (text.drop p))) ∧
      (∀ a r, read g (text.drop p) = .ok (a, r) →
        ∃ q q', StartsAt text r q q' ∧ (p < q ∨ p = q ∧ g.mayStay)) ∧
      ∀ c ∈ (plan g (text.drop p)).calls readings,
        ∃ q q', StartsAt text c.text q q' ∧ (p < q ∨ p = q ∧ c.step.level < g.level) ∧
          (c.step.isLoop → p < q) := by
  refine ⟨?_, ?_, ?_⟩
  · intro n hn
    rw [← List.length_drop] at hn
    exact readWithin_eq hn
  · intro a r h
    obtain ⟨q, q', hr, hpq, hlt⟩ := exists_startsAt hp (read_suffix h)
    refine ⟨q, q', hr, ?_⟩
    cases hg : g.mayStay with
    | false => exact .inl (hlt (read_later hg h).2)
    | true => exact (Nat.lt_or_eq_of_le hpq).imp_right (⟨·, rfl⟩)
  · intro c hc
    have hbelow := below_of_mem_calls c hc
    obtain ⟨q, q', hr, hpq, hlt⟩ := exists_startsAt hp hbelow.suffix
    have hdown : p < q ∨ p = q ∧ c.step.level < g.level := by
      cases hbelow with
      | later hs => exact .inl (hlt hs.2)
      | lower hlevel => exact (Nat.lt_or_eq_of_le hpq).imp_right (⟨·, hlevel⟩)
    refine ⟨q, q', hr, hdown, fun hloop => hdown.resolve_right fun h => ?_⟩
    -- No step is above a loop, so a call of a loop is not one for a lower level.
    have hlevel := g.level_le
    rw [Step.level_of_isLoop hloop] at h
    omega

def unclosed : List Char := "Map<A|?B[] , (C>".toList

theorem reading_ends_unclosed :
    4 ≤ unclosed.length ∧ 5 * (unclosed.length - 4) + Step.arguments.level < 70 ∧
      (∃ f, readWithin 70 .arguments (unclosed.drop 4) = some (.error f)) ∧
      (∃ t r q q', read .alternation (unclosed.drop 4) = .ok (t, r) ∧ StartsAt unclosed r q q' ∧ 4 < q) ∧
      ∀ c ∈ (plan .arguments (unclosed.drop 4)).calls readings,
        ∃ q q', StartsAt unclosed c.text q q' ∧ (4 < q ∨ 4 = q ∧ c.step.level < 4) ∧
          (c.step.isLoop → 4 < q) := by
  have hp : 4 ≤ unclosed.length := by decide
  have hn : 5 * (unclosed.length - 4) + Step.arguments.level < 70 := by decide
  obtain ⟨hends, -, hcalls⟩ := reading_ends unclosed 4 hp .arguments
  refine ⟨hp, hn, ?_, ?_, hcalls⟩
  · have hfails : (read .arguments (unclosed.drop 4)).toOption.isNone := by decide +kernel
    cases hread : read .arguments (unclosed.drop 4) with
    | ok x =>
      rw [hread] at hfails
      cases hfails
    | error f => exact ⟨f, by rw [hends 70 hn, hread]⟩
  · have hreads : (read .alternation (unclosed.drop 4)).toOption.isSome := by decide +kernel
    cases hread : read .alternation (unclosed.drop 4) with
    | error f =>
      rw [hread] at hreads
      cases hreads
    | ok x =>
      obtain ⟨q, q', hq, hlt⟩ := (reading_ends unclosed 4 hp .alternation).2.1 x.1 x.2 hread
      exact ⟨x.1, x.2, q, q', rfl, hq, hlt.resolve_right fun h => Bool.false_ne_true h.2⟩

-- The first argument is read at the same place, one level down, and the loop goes round behind the comma.
example : (((plan .arguments (unclosed.drop 4)).calls readings).map fun c =>
    (c.step.level, unclosed.length - c.text.length)) = [(3, 4), (4, 12)] := by
  decide +kernel

end AnnotatedApi.TypeExpr
