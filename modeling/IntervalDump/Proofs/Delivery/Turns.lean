import Mathlib.Data.List.TakeWhile
import IntervalDump.Proofs.Delivery.Openings
import IntervalDump.Proofs.Delivery.Unclosed
/-!
# A delivery in turns

A delivery takes in one byte after the other. Here it is a loop that takes a whole piece of the
document in every turn: text up to the next `<` or `&`, a reference, or markup up to its `>`
(`Delivery.turn`, `Delivery.loop`).

**Theorem** (`deliver_progresses`): the loop gives the same delivery (`deliver_eq_loop`), every turn
that does not return takes bytes of the source, and so it returns after at most as many turns as
there are bytes, with an error or with all of them read. Every start of an element has its own `<`.

* **What one turn can do** is said once (`Delivery.takesTurn`): it fails behind the bytes it read,
  it ends the delivery, or it has read one piece (`Markup.Lexer.IsPiece`) and goes on behind it.
* **That the loop returns** needs nothing else; the recursion is on the bytes that are left.
* **The loop reads what the delivery reads** (`Delivery.outcome_loop`), by induction on its turns.
-/

namespace IntervalDump

open Markup (Lexer)

/-! ## The bytes of one turn -/

namespace Arrival

/-- The byte belongs to text if it comes in text. -/
def isText (a : Arrival) : Bool :=
  a.byte != '<'.toUInt8 && a.byte != '&'.toUInt8

end Arrival

namespace Markup.Lexer

/-- A byte comes in. -/
def arrive (l : Lexer) (a : Arrival) : Step :=
  (if a.isFirst then l.endRefill else l).feed a.byte

/-- The bytes up to the first one behind which the lexer is in text or that shows a fault, and the
bytes behind it. -/
def splitMarkup (l : Lexer) : List Arrival → List Arrival × List Arrival
  | [] => ([], [])
  | a :: unread =>
    match (l.arrive a).next? with
    | none => ([a], unread)
    | some next =>
      if next.mode = .text then ([a], unread)
      else
        let (read, rest) := next.splitMarkup unread
        (a :: read, rest)

/-- The bytes of one turn, and those behind it. There is no turn for empty text. -/
def splitTurn (l : Lexer) (unread : List Arrival) : List Arrival × List Arrival :=
  match unread.takeWhile Arrival.isText with
  | [] => l.splitMarkup unread
  | text => (text, unread.dropWhile Arrival.isText)

/-- The lexer behind some bytes, unless they show a fault. -/
def after? (l : Lexer) (read : List Arrival) : Option Lexer :=
  read.foldlM (fun l a => (l.arrive a).next?) l

/-- The bytes `read` are one piece of a document: text up to the next `<` or `&`, or else a
reference or markup, which no beginning of them completes. -/
inductive IsPiece (l : Lexer) (read rest : List Arrival) : Prop
  | text (hread : ∀ a ∈ read, a.isText = true) (hrest : ∀ a ∈ rest.head?, a.isText = false)
  | markup (hfirst : ∀ a ∈ read.head?, a.isText = false)
      (hopen : ∀ part more m, read = part ++ more → part ≠ [] → more ≠ [] →
        l.after? part = some m → m.mode ≠ .text)

variable (l : Lexer)

/-- Markup is split behind the byte that leads back to text, and nowhere before. -/
theorem splitMarkup_cons (a : Arrival) (unread : List Arrival) :
    ((∀ next, (l.arrive a).next? = some next → next.mode = .text) ∧
        l.splitMarkup (a :: unread) = ([a], unread)) ∨
      ∃ next, (l.arrive a).next? = some next ∧ next.mode ≠ .text ∧
        l.splitMarkup (a :: unread) =
          (a :: (next.splitMarkup unread).1, (next.splitMarkup unread).2) := by
  rw [splitMarkup]
  rcases (l.arrive a).next? with _ | next
  · exact .inl ⟨nofun, rfl⟩
  · by_cases hmode : next.mode = .text
    · exact .inl ⟨fun _ hnext => Option.some.inj hnext ▸ hmode, if_pos hmode⟩
    · exact .inr ⟨next, rfl, hmode, if_neg hmode⟩

/-- Splitting markup loses nothing. -/
theorem splitMarkup_append (unread : List Arrival) :
    (l.splitMarkup unread).1 ++ (l.splitMarkup unread).2 = unread := by
  induction unread generalizing l with
  | nil => rfl
  | cons a unread ih =>
    rcases l.splitMarkup_cons a unread with ⟨-, hsplit⟩ | ⟨next, -, -, hsplit⟩ <;> rw [hsplit]
    · rfl
    · rw [List.cons_append, ih next]

/-- A turn reads text, or else markup. -/
theorem splitTurn_cases (unread : List Arrival) :
    l.splitTurn unread =
        (unread.takeWhile Arrival.isText, unread.dropWhile Arrival.isText) ∨
      l.splitTurn unread = l.splitMarkup unread := by
  unfold splitTurn
  split
  · exact .inr rfl
  · exact .inl rfl

/-- Splitting a turn loses nothing. -/
theorem splitTurn_append (unread : List Arrival) :
    (l.splitTurn unread).1 ++ (l.splitTurn unread).2 = unread := by
  rcases l.splitTurn_cases unread with hsplit | hsplit <;> rw [hsplit]
  · exact List.takeWhile_append_dropWhile
  · exact l.splitMarkup_append unread

/-- A turn takes a byte if there is one. -/
theorem splitTurn_ne_nil {unread : List Arrival} (hunread : unread ≠ []) :
    (l.splitTurn unread).1 ≠ [] := by
  unfold splitTurn
  split
  · obtain ⟨a, later, rfl⟩ := List.exists_cons_of_ne_nil hunread
    rcases l.splitMarkup_cons a later with ⟨-, hsplit⟩ | ⟨next, -, -, hsplit⟩ <;> rw [hsplit] <;>
      exact List.cons_ne_nil _ _
  · next hsome => exact fun hnone => hsome hnone

/-- Markup is not complete before its last byte. -/
theorem not_text_of_splitMarkup {unread part more : List Arrival} {m : Lexer}
    (hsplit : (l.splitMarkup unread).1 = part ++ more) (hpart : part ≠ []) (hmore : more ≠ [])
    (hafter : l.after? part = some m) : m.mode ≠ .text := by
  induction unread generalizing l part with
  | nil => exact absurd (List.append_eq_nil_iff.mp hsplit.symm).1 hpart
  | cons a unread ih =>
    obtain ⟨b, part, rfl⟩ := List.exists_cons_of_ne_nil hpart
    rcases l.splitMarkup_cons a unread with ⟨-, hcons⟩ | ⟨next, hnext, hmode, hcons⟩ <;>
      rw [hcons] at hsplit <;> obtain ⟨rfl, hbehind⟩ := List.cons.inj hsplit
    · exact absurd (List.append_eq_nil_iff.mp hbehind.symm).2 hmore
    · rw [after?, List.foldlM_cons, hnext] at hafter
      by_cases hnone : part = []
      · subst hnone
        cases hafter
        exact hmode
      · exact ih next hbehind hnone hafter

/-- **One turn is for one piece.** -/
theorem isPiece_splitTurn (unread : List Arrival) :
    l.IsPiece (l.splitTurn unread).1 (l.splitTurn unread).2 := by
  unfold splitTurn
  split
  · next hnone =>
    refine .markup (fun a ha => ?_) fun _ _ _ => l.not_text_of_splitMarkup
    have hhead : unread.head? = some a := by
      rw [← l.splitMarkup_append unread, List.head?_append, ha]
      rfl
    have hfilter : Option.filter Arrival.isText (some a) = none := by
      rw [← hhead, ← List.head?_takeWhile, hnone]
      rfl
    simpa using hfilter
  · refine .text (fun a ha => List.mem_takeWhile_imp ha) fun a ha => ?_
    have hstop := List.head?_dropWhile_not Arrival.isText unread
    rwa [Option.mem_def.mp ha] at hstop

/-- In text, the lexer stands where it is. -/
theorem stand_of_text {l : Lexer} (htext : l.mode = .text) : l.stand = l.position := by
  rw [stand, htext]

end Markup.Lexer

/-! ## One turn -/

namespace Delivery

variable {ε σ : Type}

/-- A byte comes in. If a refill begins with it, the one before has ended. -/
def arrive (h : Handler ε σ) (a : Arrival) (d : Delivery σ) : Outcome ε (Delivery σ) :=
  receiveByte h a.byte (if a.isFirst then { d with lexer := d.lexer.endRefill } else d)

/-- What a turn comes to, and the bytes it left. -/
inductive Turn (ε σ : Type) where
  | goesOn (o : Outcome ε (Delivery σ)) (rest : List Arrival)
  | returns (o : Outcome ε (Delivery σ)) (rest : List Arrival)

/-- Behind the bytes `read` the source is asked for more and has nothing: there was nothing left, or
the markup is not complete, or the source fails in text. Only where the source does not fail is text
taken for complete. -/
def isStuck (failure? : Option String) (read rest : List Arrival) (d : Delivery σ) : Bool :=
  rest.isEmpty &&
    (read.isEmpty || d.lexer.mode != .text || failure?.isSome && read.all Arrival.isText)

/-- One turn of the loop. -/
def turn (h : Handler ε σ) (failure? : Option String) (d : Delivery σ) (unread : List Arrival) :
    Turn ε σ :=
  let (read, rest) := d.lexer.splitTurn unread
  let o := Outcome.each (arrive h) read d
  match o.error? with
  | some _ => .returns o rest
  | none =>
    if isStuck failure? read rest o.state then .returns (o.andThen (finish h failure?)) rest
    else .goesOn o rest

section Arrive

variable {h : Handler ε σ} {a : Arrival} {d : Delivery σ}

/-- A byte that comes in gives the same to a handler as to a script. -/
theorem performs_arrive (a : Arrival) (d : Delivery σ) :
    Performs h (d.standing.arrive a) d.handler (arrive h a d) := by
  unfold Standing.arrive Standing.notice arrive
  cases a.isFirst with
  | false => exact performs_receiveByte a.byte d
  | true => exact performs_receiveByte a.byte { d with lexer := d.lexer.endRefill }

/-- Behind a byte, the lexer is where the byte leads it. -/
theorem next?_of_arrive (hok : (arrive h a d).error? = none) :
    (d.lexer.arrive a).next? = some (arrive h a d).state.lexer := by
  have hresult := (performs_arrive a d).standing hok
  have hlexer : (d.standing.notice a).lexer = if a.isFirst then d.lexer.endRefill else d.lexer := by
    unfold Standing.notice
    cases a.isFirst <;> rfl
  have hnext := Standing.next?_of_readByte hresult
  rwa [hlexer] at hnext

/-- A byte that is taken moves the position by one. -/
theorem position_of_arrive (hok : (arrive h a d).error? = none) :
    (arrive h a d).state.lexer.position = d.lexer.position + 1 :=
  Standing.position_of_arrive ((performs_arrive a d).standing hok)

/-- Text stays text up to the next `<` or `&`. -/
theorem text_of_arrive (hok : (arrive h a d).error? = none) (htext : d.lexer.mode = .text)
    (ha : a.isText = true) : (arrive h a d).state.lexer.mode = .text := by
  have hnext := next?_of_arrive hok
  obtain ⟨hopen, hreference⟩ : a.byte ≠ '<'.toUInt8 ∧ a.byte ≠ '&'.toUInt8 := by
    simpa [Arrival.isText] using ha
  have hrefill : (if a.isFirst then d.lexer.endRefill else d.lexer) = d.lexer := by
    rw [Lexer.endRefill, htext]
    exact ite_self _
  rw [Lexer.arrive, hrefill, Lexer.feed, htext] at hnext
  dsimp only at hnext
  rw [if_neg hopen, if_neg hreference] at hnext
  rw [← Option.some.inj hnext]
  rfl

end Arrive

section Each

variable {h : Handler ε σ}

/-- The position moves by as many bytes as are taken. -/
theorem position_of_each {read : List Arrival} {d : Delivery σ}
    (hok : (Outcome.each (arrive h) read d).error? = none) :
    (Outcome.each (arrive h) read d).state.lexer.position = d.lexer.position + read.length := by
  induction read generalizing d with
  | nil => rfl
  | cons a read ih =>
    obtain ⟨hfirst, hrest, hstate⟩ := Outcome.each_cons_of_ok hok
    rw [hstate, ih hrest, position_of_arrive hfirst, List.length_cons,
      Nat.add_assoc, Nat.add_comm 1]

/-- Text leaves the lexer in text. -/
theorem text_of_each {read : List Arrival} {d : Delivery σ}
    (hok : (Outcome.each (arrive h) read d).error? = none) (htext : d.lexer.mode = .text)
    (hread : ∀ a ∈ read, a.isText = true) :
    (Outcome.each (arrive h) read d).state.lexer.mode = .text := by
  induction read generalizing d with
  | nil => exact htext
  | cons a read ih =>
    obtain ⟨hfirst, hrest, hstate⟩ := Outcome.each_cons_of_ok hok
    rw [hstate]
    exact ih hrest (text_of_arrive hfirst htext (hread a List.mem_cons_self)) fun b hb =>
      hread b (List.mem_cons_of_mem a hb)

/-- Markup that is read without a fault is complete, unless the bytes ran out. -/
theorem text_of_splitMarkup (unread : List Arrival) {d : Delivery σ}
    (hok : (Outcome.each (arrive h) (d.lexer.splitMarkup unread).1 d).error? = none)
    (hrest : (d.lexer.splitMarkup unread).2 ≠ []) :
    (Outcome.each (arrive h) (d.lexer.splitMarkup unread).1 d).state.lexer.mode = .text := by
  induction unread generalizing d with
  | nil => exact absurd rfl hrest
  | cons a unread ih =>
    rcases d.lexer.splitMarkup_cons a unread with ⟨htext, hsplit⟩ | ⟨next, hnext, -, hsplit⟩ <;>
      rw [hsplit] at hok hrest ⊢
    · rw [Outcome.each_singleton] at hok ⊢
      exact htext _ (next?_of_arrive hok)
    · obtain ⟨hfirst, hlater, hstate⟩ := Outcome.each_cons_of_ok hok
      have hlexer := next?_of_arrive hfirst
      rw [hnext] at hlexer
      obtain rfl := Option.some.inj hlexer
      rw [hstate]
      exact ih hlater hrest

end Each

/-! ### What a turn can do -/

/-- What a turn from `d` can come to, with the bytes `unread` before it. -/
inductive TakesTurn (h : Handler ε σ) (failure? : Option String) (d : Delivery σ)
    (unread : List Arrival) : Turn ε σ → Prop
  /-- The handler fails, or the bytes show a fault. -/
  | fails (read rest : List Arrival) {error : ε} (hsplit : unread = read ++ rest)
      (herror : (Outcome.each (arrive h) read d).error? = some error) :
      TakesTurn h failure? d unread (.returns (Outcome.each (arrive h) read d) rest)
  /-- The source ends or fails. -/
  | ends :
      TakesTurn h failure? d unread
        (.returns ((Outcome.each (arrive h) unread d).andThen (finish h failure?)) [])
  /-- One piece was read, and more is to be done. -/
  | goesOn (read rest : List Arrival) (hsplit : unread = read ++ rest) (hread : read ≠ [])
      (hpiece : d.lexer.IsPiece read rest)
      (hok : (Outcome.each (arrive h) read d).error? = none)
      (htext : d.lexer.mode = .text → (Outcome.each (arrive h) read d).state.lexer.mode = .text) :
      TakesTurn h failure? d unread (.goesOn (Outcome.each (arrive h) read d) rest)

section Turns

variable {h : Handler ε σ} {failure? : Option String} {d : Delivery σ} {unread : List Arrival}

/-- A turn that goes on leaves the lexer in text. -/
theorem text_of_splitTurn (htext : d.lexer.mode = .text)
    (hok : (Outcome.each (arrive h) (d.lexer.splitTurn unread).1 d).error? = none)
    (hstuck : isStuck failure? (d.lexer.splitTurn unread).1 (d.lexer.splitTurn unread).2
      (Outcome.each (arrive h) (d.lexer.splitTurn unread).1 d).state = false) :
    (Outcome.each (arrive h) (d.lexer.splitTurn unread).1 d).state.lexer.mode = .text := by
  rcases d.lexer.splitTurn_cases unread with hsplit | hsplit <;> rw [hsplit] at hok hstuck ⊢
  · exact text_of_each hok htext fun a ha => List.mem_takeWhile_imp ha
  · by_cases hrest : (d.lexer.splitMarkup unread).2 = []
    · by_contra hmarkup
      simp [isStuck, hrest, hmarkup] at hstuck
    · exact text_of_splitMarkup unread hok hrest

/-- A turn that goes on has read something. -/
theorem splitTurn_ne_nil_of_not_isStuck {d' : Delivery σ}
    (hstuck : isStuck failure? (d.lexer.splitTurn unread).1 (d.lexer.splitTurn unread).2 d' =
      false) : (d.lexer.splitTurn unread).1 ≠ [] := by
  by_cases hunread : unread = []
  · subst hunread
    cases hstuck
  · exact d.lexer.splitTurn_ne_nil hunread

/-- **Everything that a turn can do.** -/
theorem takesTurn (h : Handler ε σ) (failure? : Option String) (d : Delivery σ)
    (unread : List Arrival) : TakesTurn h failure? d unread (turn h failure? d unread) := by
  have hsplit := (d.lexer.splitTurn_append unread).symm
  unfold turn
  dsimp only
  rcases herror : (Outcome.each (arrive h) (d.lexer.splitTurn unread).1 d).error? with _ | error
  · dsimp only
    cases hstuck : isStuck failure? (d.lexer.splitTurn unread).1 (d.lexer.splitTurn unread).2
        (Outcome.each (arrive h) (d.lexer.splitTurn unread).1 d).state with
    | true =>
      have hrest : (d.lexer.splitTurn unread).2 = [] := by
        simp only [isStuck, Bool.and_eq_true, List.isEmpty_iff] at hstuck
        exact hstuck.1
      rw [hrest, List.append_nil] at hsplit
      rw [if_pos rfl, hrest, ← hsplit]
      exact .ends
    | false =>
      rw [if_neg Bool.false_ne_true]
      exact .goesOn _ _ hsplit (splitTurn_ne_nil_of_not_isStuck hstuck)
        (d.lexer.isPiece_splitTurn unread) herror fun htext =>
          text_of_splitTurn htext herror hstuck
  · exact .fails _ _ hsplit herror

/-- **A turn leaves fewer bytes unread.** -/
theorem length_lt_of_turn {o : Outcome ε (Delivery σ)} {rest : List Arrival}
    (hturn : turn h failure? d unread = .goesOn o rest) : rest.length < unread.length := by
  have htakes := takesTurn h failure? d unread
  rw [hturn] at htakes
  cases htakes with
  | goesOn read _ hsplit hread =>
    have hpos := List.length_pos_iff.mpr hread
    rw [hsplit, List.length_append]
    omega

end Turns

/-! ## The loop -/

/-- How the loop came to return. -/
structure Ending (ε σ : Type) where
  /-- How many turns went on. -/
  turns : Nat
  outcome : Outcome ε (Delivery σ)
  /-- The bytes that were not read. -/
  unread : List Arrival

/-- Takes turns until one returns. -/
def loop (h : Handler ε σ) (failure? : Option String) (d : Delivery σ) (unread : List Arrival) :
    Ending ε σ :=
  match hturn : turn h failure? d unread with
  | .returns o rest => ⟨0, o, rest⟩
  | .goesOn o rest =>
    let later := loop h failure? o.state rest
    ⟨later.turns + 1, o.andThen fun _ => later.outcome, later.unread⟩
termination_by unread.length
decreasing_by exact length_lt_of_turn hturn

section Loop

variable (h : Handler ε σ) (failure? : Option String) (d : Delivery σ) (unread : List Arrival)

/-- **The loop reads what a delivery reads.** -/
theorem outcome_loop : (loop h failure? d unread).outcome =
    (Outcome.each (arrive h) unread d).andThen (finish h failure?) := by
  fun_induction loop h failure? d unread with
  | case1 d unread o rest hturn =>
    have htakes := takesTurn h failure? d unread
    rw [hturn] at htakes
    cases htakes with
    | fails read _ hsplit herror =>
      rw [hsplit, Outcome.each_append_of_error herror, Outcome.andThen_of_error herror]
    | ends => rfl
  | case2 d unread o rest hturn later ih =>
    have htakes := takesTurn h failure? d unread
    rw [hturn] at htakes
    cases htakes with
    | goesOn read _ hsplit =>
      show (Outcome.each (arrive h) read d).andThen (fun _ => later.outcome) = _
      rw [hsplit, Outcome.each_append, Outcome.andThen_assoc]
      refine Outcome.andThen_congr ?_
      exact ih

/-- There are no more turns than bytes. -/
theorem turns_loop_le : (loop h failure? d unread).turns ≤ unread.length := by
  fun_induction loop h failure? d unread with
  | case1 => exact Nat.zero_le _
  | case2 d unread o rest hturn later ih =>
    have hshorter := length_lt_of_turn hturn
    exact Nat.lt_of_le_of_lt ih hshorter

/-- **A loop that succeeds has read everything.** -/
theorem unread_loop (hok : (loop h failure? d unread).outcome.error? = none) :
    (loop h failure? d unread).unread = [] := by
  fun_induction loop h failure? d unread with
  | case1 d unread o rest hturn =>
    have htakes := takesTurn h failure? d unread
    rw [hturn] at htakes
    cases htakes with
    | fails read _ hsplit herror => rw [herror] at hok; cases hok
    | ends => rfl
  | case2 d unread o rest hturn later ih =>
    exact ih (Outcome.error?_andThen_eq_none.mp hok).2

end Loop

end Delivery

/-! ## The delivery of a source -/

section Source

variable {ε σ : Type} (h : Handler ε σ) (source : Source) (s : σ)

/-- A delivery, byte by byte. -/
theorem Delivery.performs_arrivals : Performs h
    ((Standing.emit .startDocument {}) >>= fun s => source.arrivals.foldlM Standing.arrive s) s
    ((call h.startDocument { handler := s }).andThen
      (Outcome.each (arrive h) source.arrivals)) :=
  (performs_call .startDocument { handler := s }).andThen
    (performs_each performs_arrive source.arrivals)

/-- **A delivery is the start of the document, and the loop behind it.** -/
theorem deliver_eq_loop : deliver h source s =
    ((Delivery.call h.startDocument { handler := s }).andThen fun d =>
      (Delivery.loop h source.failure? d source.arrivals).outcome).map Delivery.handler := by
  have hscript : source.script =
      ((Standing.emit .startDocument {}) >>= fun s => source.arrivals.foldlM Standing.arrive s) >>=
        fun s => ⟨[], s.finish source.failure?⟩ := by
    rw [Source.script_eq, bind_assoc]
    rfl
  simp only [Delivery.outcome_loop]
  rw [deliver_eq, hscript, Script.run_bind, ← Outcome.andThen_assoc]
  refine ((Delivery.performs_arrivals h source s).run _ _ ?_).symm
  intro d
  exact Delivery.map_handler_finish source.failure? d

/-- A delivery goes forward on every source, and starts no element without a `<`. -/
structure Progresses : Prop where
  /-- The loop is for all bytes of the source but a byte order mark. -/
  bytes : source.mark ++ source.arrivals.map Arrival.byte = source.refills.flatten
  loop : deliver h source s =
    ((Delivery.call h.startDocument { handler := s }).andThen fun d =>
      (Delivery.loop h source.failure? d source.arrivals).outcome).map Delivery.handler
  /-- A turn that goes on has taken the bytes of one piece: the input stands further on, and outside
  of markup. -/
  advances : ∀ d unread o rest, d.lexer.mode = .text →
    Delivery.turn h source.failure? d unread = .goesOn o rest →
      o.state.lexer.mode = .text ∧ ∃ read, read ≠ [] ∧ unread = read ++ rest ∧
        d.lexer.IsPiece read rest ∧ o.state.lexer.stand = d.lexer.stand + read.length
  turns : ∀ d unread, (Delivery.loop h source.failure? d unread).turns ≤ unread.length
  /-- The loop returns with an error, or at the end of the input. -/
  ends : ∀ d unread, (Delivery.loop h source.failure? d unread).outcome.error? = none →
    (Delivery.loop h source.failure? d unread).unread = []
  /-- Every start that the handler is called with has a `<` that it comes from. -/
  opened : ∀ earlier e later, h.calls source s = .startDocument :: earlier ++ e :: later →
    e.isStart = true → ∃ place, source.OpensAt place earlier e
  /-- This is not the `<` of an earlier start. -/
  apart : ∀ place place' earlier earlier' e e', source.OpensAt place earlier e →
    source.OpensAt place' earlier' e' → earlier.length < earlier'.length → place < place'
  count : (h.calls source s).countP Event.isStart ≤ source.refills.flatten.count '<'.toUInt8

/-- **A turn that goes on moves forward** by a whole piece of the document. -/
theorem advances_of_turn {failure? : Option String} {d : Delivery σ} {unread rest : List Arrival}
    {o : Outcome ε (Delivery σ)} (htext : d.lexer.mode = .text)
    (hturn : Delivery.turn h failure? d unread = .goesOn o rest) :
    o.state.lexer.mode = .text ∧ ∃ read, read ≠ [] ∧ unread = read ++ rest ∧
      d.lexer.IsPiece read rest ∧ o.state.lexer.stand = d.lexer.stand + read.length := by
  have htakes := Delivery.takesTurn h failure? d unread
  rw [hturn] at htakes
  cases htakes with
  | goesOn read _ hsplit hread hpiece hok hmode =>
    refine ⟨hmode htext, read, hread, hsplit, hpiece, ?_⟩
    rw [Lexer.stand_of_text (hmode htext), Lexer.stand_of_text htext, Delivery.position_of_each hok]

/-- **A delivery goes forward on every source**, for every handler. -/
theorem deliver_progresses : Progresses h source s where
  bytes := by rw [Source.map_byte_arrivals, Source.mark_append_bytes]
  loop := deliver_eq_loop h source s
  advances _ _ _ _ htext hturn := advances_of_turn h htext hturn
  turns d unread := Delivery.turns_loop_le h source.failure? d unread
  ends d unread := Delivery.unread_loop h source.failure? d unread
  opened _ _ _ hcalls he := by
    obtain ⟨later, hsource⟩ := elementCalls_of_calls h source s hcalls he
    exact Source.exists_opensAt hsource he
  apart _ _ _ _ _ _ hopens hopens' hearlier := hopens.lt hopens' hearlier
  count := countP_isStart_calls_le h source s

/-- Text, a reference, a tag, a comment with a `<` in it, text, and a tag that is not complete. -/
example : (Delivery.loop Handler.recorder none { handler := #[] }
    (Source.ofText "a&b;<c/><!--<-->d<e").arrivals).turns = 5 := by
  decide +kernel

end Source

end IntervalDump
