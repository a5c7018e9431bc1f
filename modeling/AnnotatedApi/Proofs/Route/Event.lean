import AnnotatedApi.Proofs.Route.Compilation

/-! The grammar of events: three segments without separators, with a separator between each two. Main
statement: an event is read from exactly the texts of this form whose first segment names a method, every
other text is reported with the number of its segments or its unknown method, and the event of a route
holds one colon and one hyphen. -/
namespace AnnotatedApi

open Text

namespace Method

private theorem eq_of_sameName_key {m m' : Method} {name : List Char} (h : sameName m.key.toList name)
    (h' : sameName m'.key.toList name) : m = m' := by
  have hkeys : m.key.toList.map Char.toLower = m'.key.toList.map Char.toLower :=
    (of_decide_eq_true h).trans (of_decide_eq_true h').symm
  cases m <;> cases m' <;> first | rfl | exact absurd hkeys (by decide)

private theorem mem_all (m : Method) : m ∈ all := by
  cases m <;> decide

theorem parse?_eq_some_iff {name : String} {m : Method} :
    parse? name = some m ↔ sameName m.key.toList name.toList := by
  unfold parse?
  constructor
  · exact List.find?_some
  · intro h
    have hsome : (all.find? fun m => sameName m.key.toList name.toList).isSome :=
      List.find?_isSome.2 ⟨m, mem_all m, h⟩
    obtain ⟨m', hm'⟩ := Option.isSome_iff_exists.1 hsome
    have hname := List.find?_some hm'
    rw [hm', eq_of_sameName_key hname h]

theorem parse?_eq_none_iff {name : String} :
    parse? name = none ↔ ∀ m : Method, ¬sameName m.key.toList name.toList := by
  rw [Option.eq_none_iff_forall_ne_some]
  exact forall_congr' fun m => not_congr parse?_eq_some_iff

end Method

namespace Event

/-- The parts of a text between colons, each of them taken apart at its hyphens. -/
def segments (d : String) : List (List Char) := (d.toList.splitOn ':').flatMap (·.splitOn '-')

/-- One more than there are separators. -/
def segmentCount (d : String) : Nat := 1 + (d.toList.count ':' + d.toList.count '-')

structure IsSegment (s : List Char) : Prop where
  colon : ':' ∉ s
  hyphen : '-' ∉ s

/-- The text is these three segments with a separator between each two. -/
structure Joins (d : String) (method path operationId : List Char) : Prop where
  isSegment_method : IsSegment method
  isSegment_path : IsSegment path
  isSegment_operationId : IsSegment operationId
  text : ∃ s₁ s₂, (s₁ = ':' ∨ s₁ = '-') ∧ (s₂ = ':' ∨ s₂ = '-') ∧
    d.toList = method ++ s₁ :: (path ++ s₂ :: operationId)

/-- The text of an event. The first segment names the method, up to the case of its letters, and blanks
around a segment do not belong to it. -/
inductive Spells (d : String) : Event → Prop
  | mk {m : Method} {method path operationId : List Char} :
      Joins d method path operationId → Method.sameName m.key.toList (trim method) →
        Spells d ⟨m, String.ofList (trim path), String.ofList (trim operationId)⟩

inductive Fault (d : String) : Error → Prop
  | segments : segmentCount d ≠ 3 → Fault d (.malformedEvent d (.segments (segmentCount d)))
  | unknownMethod {method path operationId : List Char} :
      Joins d method path operationId → (∀ m : Method, ¬Method.sameName m.key.toList (trim method)) →
        Fault d (.malformedEvent d (.unknownMethod (String.ofList (trim method))))

inductive Report (d : String) : String → Prop
  | segments : segmentCount d ≠ 3 → Report d
      ("Malformed @event '" ++ d ++ "': " ++
        ("expected 3 segments, found " ++ toString (segmentCount d)))
  | unknownMethod {method path operationId : List Char} :
      Joins d method path operationId → (∀ m : Method, ¬Method.sameName m.key.toList (trim method)) →
        Report d ("Malformed @event '" ++ d ++ "': " ++
          ("unknown HTTP method '" ++ String.ofList (trim method) ++ "'"))

variable {d : String} {method path operationId : List Char}

theorem isSeparator_iff {c : Char} : isSeparator c ↔ c = ':' ∨ c = '-' := by
  simp [isSeparator]

private theorem isSegment_iff {s : List Char} : IsSegment s ↔ ∀ c ∈ s, isSeparator c = false := by
  constructor
  · rintro ⟨hcolon, hhyphen⟩ c hc
    apply eq_false_of_ne_true
    rw [isSeparator_iff]
    rintro (rfl | rfl)
    · exact hcolon hc
    · exact hhyphen hc
  · intro h
    exact ⟨fun hc => Bool.noConfusion (h _ hc), fun hc => Bool.noConfusion (h _ hc)⟩

theorem segments_eq (d : String) : segments d = d.toList.splitOnP isSeparator := by
  unfold segments
  rw [flatMap_splitOn_splitOn]
  congr

private theorem countP_isSeparator (s : List Char) :
    s.countP isSeparator = s.count ':' + s.count '-' := by
  induction s with
  | nil => rfl
  | cons c s ih =>
    rw [List.countP_cons, List.count_cons, List.count_cons, ih]
    by_cases hcolon : c = ':'
    · subst hcolon
      simp [isSeparator]
      omega
    · by_cases hhyphen : c = '-' <;> simp [isSeparator, hcolon, hhyphen]
      omega

theorem length_segments (d : String) : (segments d).length = segmentCount d := by
  rw [segments_eq, length_splitOnP, countP_isSeparator]
  rfl

theorem segments_eq_iff :
    segments d = [method, path, operationId] ↔ Joins d method path operationId := by
  rw [segments_eq, splitOnP_eq_cons_iff, ← isSegment_iff]
  constructor
  · rintro ⟨hmethod, ⟨-, h⟩ | ⟨s₁, rest, hs₁, htext, hrest⟩⟩
    · cases h
    rw [splitOnP_eq_cons_iff, ← isSegment_iff] at hrest
    obtain ⟨hpath, ⟨-, h⟩ | ⟨s₂, rest', hs₂, rfl, hlast⟩⟩ := hrest
    · cases h
    rw [splitOnP_eq_cons_iff, ← isSegment_iff] at hlast
    obtain ⟨hid, ⟨rfl, -⟩ | ⟨_, _, _, _, h⟩⟩ := hlast
    · exact ⟨hmethod, hpath, hid, s₁, s₂, isSeparator_iff.1 hs₁, isSeparator_iff.1 hs₂, htext⟩
    · exact absurd h (List.splitOnP_ne_nil _ _)
  · rintro ⟨hmethod, hpath, hid, s₁, s₂, hs₁, hs₂, htext⟩
    refine ⟨hmethod, .inr ⟨s₁, _, isSeparator_iff.2 hs₁, htext, ?_⟩⟩
    rw [List.splitOnP_append_cons_of_forall_mem (isSegment_iff.1 hpath) s₂ (isSeparator_iff.2 hs₂),
      List.splitOnP_eq_singleton (isSegment_iff.1 hid)]

theorem segmentCount_ne_or_joins (d : String) :
    segmentCount d ≠ 3 ∨ ∃ method path operationId, Joins d method path operationId := by
  by_cases h : segmentCount d = 3
  · rw [← length_segments, List.length_eq_three] at h
    obtain ⟨method, path, operationId, h⟩ := h
    exact .inr ⟨method, path, operationId, segments_eq_iff.1 h⟩
  · exact .inl h

theorem Joins.parse_eq (h : Joins d method path operationId) : parse d =
    match Method.parse? (String.ofList (trim method)) with
    | some m => .ok ⟨m, String.ofList (trim path), String.ofList (trim operationId)⟩
    | none => .error (.malformedEvent d (.unknownMethod (String.ofList (trim method)))) := by
  unfold parse
  rw [← segments_eq, segments_eq_iff.2 h]
  rfl

theorem Fault.parse_eq {e : Error} (h : Fault d e) : parse d = .error e := by
  cases h with
  | segments hcount =>
    have hlength : ((d.toList.splitOnP isSeparator).map trim).length = segmentCount d := by
      rw [List.length_map, ← segments_eq, length_segments]
    unfold parse
    split
    next hsegments =>
      rw [hsegments] at hlength
      exact absurd hlength.symm hcount
    next => rw [hlength]
  | @unknownMethod method _ _ hjoins hmethod =>
    have hnone : Method.parse? (String.ofList (trim method)) = none := by
      rwa [Method.parse?_eq_none_iff, String.toList_ofList]
    rw [hjoins.parse_eq, hnone]

theorem Spells.parse_eq {e : Event} (h : Spells d e) : parse d = .ok e := by
  obtain @⟨m, method, _, _, hjoins, hmethod⟩ := h
  have hsome : Method.parse? (String.ofList (trim method)) = some m := by
    rwa [Method.parse?_eq_some_iff, String.toList_ofList]
  rw [hjoins.parse_eq, hsome]

theorem spells_or_fault (d : String) : (∃ e, Spells d e) ∨ ∃ e, Fault d e := by
  rcases segmentCount_ne_or_joins d with h | ⟨method, path, operationId, h⟩
  · exact .inr ⟨_, .segments h⟩
  · by_cases hm : ∃ m : Method, Method.sameName m.key.toList (trim method)
    · obtain ⟨m, hm⟩ := hm
      exact .inl ⟨_, .mk h hm⟩
    · exact .inr ⟨_, .unknownMethod h fun m hm' => hm ⟨m, hm'⟩⟩

theorem parse_settled (d : String) :
    (∀ e, parse d = .ok e ↔ Spells d e) ∧ ∀ error, parse d = .error error ↔ Fault d error :=
  Outcome.eq_iff_of_or (fun _ => Spells.parse_eq) (fun _ => Fault.parse_eq) (spells_or_fault d)

theorem report_iff {text : String} : Report d text ↔ ∃ error, Fault d error ∧ error.message = text := by
  constructor
  · rintro (hcount | ⟨hjoins, hmethod⟩)
    · exact ⟨_, .segments hcount, rfl⟩
    · exact ⟨_, .unknownMethod hjoins hmethod, rfl⟩
  · rintro ⟨_, hcount | ⟨hjoins, hmethod⟩, rfl⟩
    · exact .segments hcount
    · exact .unknownMethod hjoins hmethod

theorem Spells.segmentCount_eq {e : Event} (h : Spells d e) : segmentCount d = 3 := by
  obtain ⟨hjoins, -⟩ := h
  rw [← length_segments, segments_eq_iff.2 hjoins]
  rfl

/-- A tag that is sorted as an event holds both separators. -/
theorem mem_of_mem_events {b : Block} (h : d ∈ b.events) : ':' ∈ d.toList ∧ '-' ∈ d.toList := by
  obtain ⟨t, -, ht⟩ := List.mem_filterMap.1 h
  unfold Tag.event? at ht
  split at ht
  next hd =>
    cases ht
    exact hd.2
  next => cases ht

/-- With both separators in it, an event has one of each. -/
theorem Spells.count_eq_one {e : Event} (h : Spells d e) (hcolon : ':' ∈ d.toList)
    (hhyphen : '-' ∈ d.toList) : d.toList.count ':' = 1 ∧ d.toList.count '-' = 1 := by
  have hcount := h.segmentCount_eq
  unfold segmentCount at hcount
  have hcolon := List.count_pos_iff.2 hcolon
  have hhyphen := List.count_pos_iff.2 hhyphen
  omega

/-- Cutting a text at its colons and then at its hyphens gives three parts exactly where it joins them with
separators. An event is read from these texts if the first part names a method, and every other text is
reported, with the number of its segments or the method that is not known. The event of a route has one
colon and one hyphen. -/
theorem parse_event_iff :
    (∀ d method path operationId,
      segments d = [method, path, operationId] ↔ Joins d method path operationId) ∧
    (∀ d e, parse d = .ok e ↔ Spells d e) ∧
    (∀ d error, parse d = .error error ↔ Fault d error) ∧
    (∀ d text, (∃ error, parse d = .error error ∧ error.message = text) ↔ Report d text) ∧
    ∀ b r, Route.compile b = .ok r → ∃ d, b.events.head? = some d ∧
      parse d = .ok ⟨r.method, r.path, r.operation.operationId⟩ ∧
      d.toList.count ':' = 1 ∧ d.toList.count '-' = 1 := by
  refine ⟨fun _ _ _ _ => segments_eq_iff, fun d => (parse_settled d).1, fun d => (parse_settled d).2,
    ?_, ?_⟩
  · intro d text
    simp only [(parse_settled d).2, report_iff]
  · intro b r h
    obtain ⟨-, d, hd, hparse⟩ := (Route.describes_of_compile_eq_ok h).event
    obtain ⟨hcolon, hhyphen⟩ := mem_of_mem_events (List.mem_of_head? hd)
    exact ⟨d, hd, hparse, (((parse_settled d).1 _).1 hparse).count_eq_one hcolon hhyphen⟩

/-- The separators in the other order, with an em space behind them; a hyphen too many; a block. -/
theorem parse_event_iff_pets :
    Spells "delete -/pets :\u2003dropPet" ⟨.delete, "/pets", "dropPet"⟩ ∧
    parse "GET: /pet-food - list" = .error (.malformedEvent "GET: /pet-food - list" (.segments 4)) ∧
    Report "GET: /pet-food - list"
      "Malformed @event 'GET: /pet-food - list': expected 3 segments, found 4" ∧
    ∃ r d, Route.compile Route.storeBlock = .ok r ∧ Route.storeBlock.events.head? = some d ∧
      d.toList.count ':' = 1 ∧ d.toList.count '-' = 1 := by
  have hdelete : parse "delete -/pets :\u2003dropPet" = .ok ⟨.delete, "/pets", "dropPet"⟩ :=
    Outcome.toOption_eq_some.1 (by decide +kernel)
  have hfault := Fault.segments (d := "GET: /pet-food - list") (by decide +kernel)
  have hcount : segmentCount "GET: /pet-food - list" = 4 := by decide +kernel
  rw [hcount] at hfault
  have hcompiles : (Route.compile Route.storeBlock).toOption.isSome := by decide +kernel
  obtain ⟨r, hr⟩ := Option.isSome_iff_exists.1 hcompiles
  have hr : Route.compile Route.storeBlock = .ok r := Outcome.toOption_eq_some.1 hr
  obtain ⟨-, hok, herror, hreport, hroute⟩ := parse_event_iff
  obtain ⟨d, hd, -, hone⟩ := hroute _ r hr
  have hparse := (herror _ _).2 hfault
  exact ⟨(hok _ _).1 hdelete, hparse, (hreport _ _).1 ⟨_, hparse, by decide +kernel⟩, r, d, hr, hd, hone⟩

end Event

end AnnotatedApi
