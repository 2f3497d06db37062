import IntervalDump.Proofs.Delivery.Protocol
import IntervalDump.Proofs.Delivery.Cut
/-!
# The `<` that opens an element

Every start of an element comes from a tag, so there is a `<` that it comes from.

* **Where it stands** (`Source.OpensAt`): with the bytes before it, just the calls before the start
  are made, and the tag that begins there gives the start first of all.
* **A later start has a later `<`** (`Source.OpensAt.lt`), since more bytes never give fewer calls.
* **There are no more starts than `<` bytes** (`Source.countP_isStart_le`), in the whole source and
  in every beginning of it, by induction on the calls.
-/

namespace IntervalDump

/-- The start of an element is the first event of its tag. -/
theorem Tag.eq_nil_of_isStart {raw markup : List UInt8} {first rest : List Event} {e : Event}
    (h : Tag raw markup (first ++ e :: rest)) (he : e.isStart = true) : first = [] := by
  generalize hevents : first ++ e :: rest = events at h
  cases h with
  | start =>
    rcases List.append_eq_singleton_iff.mp hevents with ⟨hfirst, -⟩ | ⟨-, hnil⟩
    · exact hfirst
    · cases hnil
  | empty =>
    rcases first with _ | ⟨start, _ | ⟨other, first⟩⟩
    · rfl
    · obtain ⟨-, rfl, -⟩ : start = _ ∧ e = _ ∧ rest = [] := by simpa using hevents
      cases he
    · simp at hevents
  | finish =>
    rcases List.append_eq_singleton_iff.mp hevents with ⟨hfirst, -⟩ | ⟨-, hnil⟩
    · exact hfirst
    · cases hnil

namespace Source

variable {source : Source}

/-- At `place` stands the `<` of a tag that gives the event `e` first, and with the bytes before it
just the calls `earlier` are made. -/
structure OpensAt (source : Source) (place : Nat) (earlier : List Event) (e : Event) : Prop where
  tag : ∃ raw markup behind rest,
    source.refills.flatten.drop place = '<'.toUInt8 :: (markup ++ '>'.toUInt8 :: behind) ∧
    Tag raw markup (e :: rest)
  earlier : (source.cut place none).elementCalls = earlier

/-- **Every start has a `<` that it comes from.** -/
theorem exists_opensAt {earlier later : List Event} {e : Event}
    (h : source.elementCalls = earlier ++ e :: later) (he : e.isStart = true) :
    ∃ place, source.OpensAt place earlier e := by
  obtain ⟨raw, before, markup, behind, first, rest, hsplit, htag, hearlier⟩ :=
    hasTag_of_elementCalls h
  obtain rfl := htag.eq_nil_of_isStart he
  refine ⟨before.length, ⟨raw, markup, behind, rest, ?_, htag⟩, ?_⟩
  · rw [hsplit, List.drop_left]
  · rwa [List.append_nil] at hearlier

/-- More bytes never give fewer calls. -/
theorem elementCalls_cut_prefix {m n : Nat} (h : m ≤ n) :
    (source.cut m none).elementCalls <+: (source.cut n none).elementCalls := by
  rw [elementCalls_cut, elementCalls_cut]
  exact Script.ofArrivals_prefix (List.take_prefix_take_left (by omega))

/-- More calls take more bytes. -/
theorem lt_of_elementCalls_cut {m n : Nat}
    (h : (source.cut m none).elementCalls.length < (source.cut n none).elementCalls.length) :
    m < n := by
  by_contra hle
  have hprefix : (source.cut n none).elementCalls <+: (source.cut m none).elementCalls :=
    elementCalls_cut_prefix (Nat.le_of_not_lt hle)
  exact absurd hprefix.length_le (Nat.not_le_of_lt h)

/-- **A later start has a later `<`.** -/
theorem OpensAt.lt {place place' : Nat} {earlier earlier' : List Event} {e e' : Event}
    (h : source.OpensAt place earlier e) (h' : source.OpensAt place' earlier' e')
    (hearlier : earlier.length < earlier'.length) : place < place' := by
  rw [← h.earlier, ← h'.earlier] at hearlier
  exact lt_of_elementCalls_cut hearlier

/-- Behind all bytes nothing is cut off. -/
theorem elementCalls_cut_length :
    (source.cut source.refills.flatten.length none).elementCalls = source.elementCalls := by
  have hlength : source.refills.flatten.length - source.mark.length = source.arrivals.length := by
    rw [← mark_append_bytes, List.length_append, Nat.add_sub_cancel_left, ← map_byte_arrivals,
      List.length_map]
  rw [elementCalls_cut, hlength, List.take_length, elementCalls_eq]

/-- The `<` at a place is counted with the bytes before any later one. -/
theorem OpensAt.count_lt {place n : Nat} {earlier : List Event} {e : Event}
    (h : source.OpensAt place earlier e) (hlt : place < n) :
    (source.refills.flatten.take place).count '<'.toUInt8 <
      (source.refills.flatten.take n).count '<'.toUInt8 := by
  obtain ⟨-, markup, behind, -, hdrop, -⟩ := h.tag
  obtain ⟨more, rfl⟩ := Nat.exists_eq_add_of_lt hlt
  rw [Nat.add_assoc, List.take_add, hdrop, List.take_succ_cons, List.count_append,
    List.count_cons_self]
  omega

/-- **There are no more starts than `<` bytes.** The last call is made for a tag whose `<` is behind
all the bytes that the calls before it were made for. -/
theorem countP_isStart_le_take (source : Source) (events : List Event) (n : Nat)
    (h : events <+: (source.cut n none).elementCalls) :
    events.countP Event.isStart ≤ (source.refills.flatten.take n).count '<'.toUInt8 := by
  induction events using List.reverseRecOn generalizing n with
  | nil => exact Nat.zero_le _
  | append_singleton events e ih =>
    rw [List.countP_append, List.countP_singleton]
    cases he : e.isStart with
    | false => exact ih n ((List.prefix_append events [e]).trans h)
    | true =>
      have hwhole : (source.cut n none).elementCalls <+: source.elementCalls := by
        rw [elementCalls_cut, elementCalls_eq]
        exact Script.ofArrivals_prefix (List.take_prefix _ _)
      obtain ⟨later, hlater⟩ := h.trans hwhole
      rw [List.append_assoc] at hlater
      obtain ⟨place, hopens⟩ := exists_opensAt hlater.symm he
      have hlength := h.length_le
      rw [List.length_append, List.length_singleton, ← hopens.earlier] at hlength
      have hcount := ih place (by rw [hopens.earlier])
      exact Nat.lt_of_le_of_lt hcount (hopens.count_lt (lt_of_elementCalls_cut hlength))

/-- **Every start stands behind a `<` of its own.** -/
theorem countP_isStart_le (source : Source) :
    source.elementCalls.countP Event.isStart ≤ source.refills.flatten.count '<'.toUInt8 := by
  have hcount := source.countP_isStart_le_take source.elementCalls source.refills.flatten.length
    (by rw [elementCalls_cut_length])
  rwa [List.take_length] at hcount

end Source

/-! ## The calls of a handler -/

section Calls

variable {ε σ : Type} (h : Handler ε σ) (source : Source) (s : σ)

/-- A handler is called with the start of the document and a beginning of what the source gives. -/
theorem calls_prefix :
    h.calls source s <+: Event.startDocument :: source.elementCalls ++ [Event.endDocument] := by
  have hevents : source.script.events = .startDocument :: source.elementCalls := by
    rw [Source.events_script, Source.elementCalls_eq]
  rw [Handler.calls_eq, ← hevents]
  refine (h.called_prefix _ s).trans ?_
  rcases hresult : source.script.result with fault | n
  · rw [Script.delivered_of_error hresult]
    exact List.prefix_append _ _
  · rw [Script.delivered_of_ok hresult]

/-- What is called before a start is what the source gives before it. -/
theorem elementCalls_of_calls {earlier later : List Event} {e : Event}
    (hcalls : h.calls source s = .startDocument :: earlier ++ e :: later)
    (he : e.isStart = true) : ∃ rest, source.elementCalls = earlier ++ e :: rest := by
  obtain ⟨unheard, hall⟩ := calls_prefix h source s
  have hconcat : earlier ++ [e] <+: source.elementCalls ++ [.endDocument] :=
    ⟨later ++ unheard, by simpa [hcalls] using hall⟩
  rcases List.prefix_concat_iff.mp hconcat with hall | ⟨rest, hrest⟩
  · obtain rfl : e = .endDocument := by simpa using (List.append_inj' hall rfl).2
    cases he
  · exact ⟨rest, by rw [← hrest, List.append_assoc]; rfl⟩

/-- A handler is called with no more starts than there are bytes `<`. -/
theorem countP_isStart_calls_le :
    (h.calls source s).countP Event.isStart ≤ source.refills.flatten.count '<'.toUInt8 := by
  have hprefix := calls_prefix h source s
  have hle := hprefix.sublist.countP_le (p := Event.isStart)
  have hends : (Event.startDocument :: source.elementCalls ++ [Event.endDocument]).countP
      Event.isStart = source.elementCalls.countP Event.isStart := by
    rw [List.countP_append, List.countP_cons_of_neg (by decide)]
    rfl
  rw [hends] at hle
  exact hle.trans source.countP_isStart_le

end Calls

end IntervalDump
