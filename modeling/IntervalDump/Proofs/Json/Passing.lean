import IntervalDump.Proofs.Json.Grammar
/-!
# What is passed over

A JSON value, however deep it is, is passed over to its end and no further (`IsJson.pass_nil`). The
statement that the induction carries is about a value between open brackets
(`IsJson.pass_eq_resume`): from its beginning `pass` comes to the same as if it went on right behind
it (`resume`).
-/

namespace IntervalDump.Json

/-! ## Going on behind a value -/

/-- Goes on behind a value, or behind the bracket that was just opened if `first` holds. -/
def resume (brackets : List Bracket) (first : Bool) (s : List Char) : Except Fault (List Char) :=
  match toNext brackets first s with
  | .error fault => .error fault
  | .ok ([], r) => .ok r
  | .ok (bracket :: inner, r) => pass (bracket :: inner) r

/-- With no bracket open, everything was passed over. -/
theorem resume_nil (first : Bool) (s : List Char) : resume [] first s = .ok s :=
  rfl

/-- Passing over a value goes on as its head says. -/
theorem pass_eq_resume {brackets inner : List Bracket} {first : Bool} {s r : List Char}
    (h : passHead brackets s = toNext inner first r) : pass brackets s = resume inner first r := by
  rw [resume, ← h, pass]
  split <;> rename_i heq <;> rw [heq]

section Resume

variable {outer : List Bracket} {first : Bool} {s r : List Char}

/-- A closing bracket leads back to the bracket around it. -/
theorem resume_close {bracket : Bracket} (h : nextItem bracket.close first s = .ok (false, r)) :
    resume (bracket :: outer) first s = resume outer false r := by
  simp only [resume, toNext, h]

/-- An item of an array is passed over next. -/
theorem resume_item (h : nextItem Bracket.square.close first s = .ok (true, r)) :
    resume (.square :: outer) first s = pass (.square :: outer) r := by
  simp only [resume, toNext, h]

/-- A member of an object is passed over next, behind its key. -/
theorem resume_member {r' : List Char} (h : nextItem Bracket.curly.close first s = .ok (true, r))
    (hkey : passKey r = .ok r') :
    resume (.curly :: outer) first s = pass (.curly :: outer) r' := by
  simp only [resume, toNext, h, hkey]

end Resume

/-! ## Between brackets -/

/-- From an item between the brackets `pass` comes to what is behind the item. -/
def PassesItem (bracket : Bracket) (item : List Char) : Prop :=
  ∀ (outer : List Bracket) (first : Bool) (s rest : List Char), Delimits rest →
    nextItem bracket.close first s = .ok (true, item ++ rest) →
    resume (bracket :: outer) first s = resume (bracket :: outer) false rest

section Listing

variable {bracket : Bracket} {items : List (List Char)} {s : List Char}
  (hbegins : ∀ item ∈ items, BeginsItem bracket item)
  (hpasses : ∀ item ∈ items, PassesItem bracket item) (outer : List Bracket) (rest : List Char)
include hbegins hpasses

/-- **What is behind an item is passed over to the closing bracket.** -/
theorem resume_tail (hs : Tail bracket items s) :
    resume (bracket :: outer) false (s ++ rest) = resume outer false rest := by
  induction hs with
  | close hblanks =>
    apply resume_close
    rw [List.append_assoc, List.singleton_append]
    exact nextItem_close hblanks false rest
  | item hbefore hbehind hs ih =>
    obtain ⟨hbegin, hbegins⟩ := List.forall_mem_cons.mp hbegins
    obtain ⟨hpass, hpasses⟩ := List.forall_mem_cons.mp hpasses
    rw [← ih hbegins hpasses]
    apply hpass _ _ _ _ (hs.delimits rest)
    simp only [List.append_assoc, List.cons_append]
    exact nextItem_comma hbefore hbehind hbegin _

/-- **A list is passed over if its items are**, whatever brackets it stands in. -/
theorem pass_listing (hs : Listing bracket items s) {blanks : List Char}
    (hblanks : AllBlank blanks) :
    pass outer (blanks ++ (s ++ rest)) = resume outer false rest := by
  have hopen (t : List Char) :
      pass outer (blanks ++ bracket.opening :: t) = resume (bracket :: outer) true t := by
    have hblank : isBlank bracket.opening = false := by cases bracket <;> rfl
    have hbracket : Bracket.ofOpen? bracket.opening = some bracket := by cases bracket <;> rfl
    apply pass_eq_resume
    simp only [passHead, skipBlanks_to hblanks hblank, hbracket]
  cases hs with
  | empty hempty =>
    rw [List.cons_append, hopen, List.append_assoc, List.singleton_append]
    exact resume_close (nextItem_close hempty true rest)
  | items hbefore hs =>
    obtain ⟨hbegin, hbegins⟩ := List.forall_mem_cons.mp hbegins
    obtain ⟨hpass, hpasses⟩ := List.forall_mem_cons.mp hpasses
    rw [List.cons_append, hopen, ← resume_tail hbegins hpasses outer rest hs]
    apply hpass _ _ _ _ (hs.delimits rest)
    simp only [List.append_assoc]
    exact nextItem_first hbefore hbegin _

end Listing

/-- A key is passed over with its colon. -/
theorem MemberText.passKey_eq (member : MemberText) (hkey : IsContent member.key)
    (rest : List Char) :
    passKey (member.chars ++ rest) = .ok (member.behind ++ (member.value ++ rest)) := by
  have hquote := member.passMark_quote .nil rest
  rw [List.nil_append] at hquote
  simp only [passKey, hquote, passText_content hkey, member.passMark_colon]

/-! ## Values -/

/-- A value without brackets. -/
theorem pass_scalar (c : Char) (t : List Char) {brackets : List Bracket} {blanks rest : List Char}
    (hblanks : AllBlank blanks) (hblank : isBlank c = false) (hopen : Bracket.ofOpen? c = none)
    (hscalar : passScalar c (t ++ rest) = .ok rest) :
    pass brackets (blanks ++ (c :: t ++ rest)) = resume brackets false rest := by
  apply pass_eq_resume
  simp only [passHead, List.cons_append, skipBlanks_to hblanks hblank, hopen, hscalar]

/-- A number is passed over once its first character is gone. -/
theorem passScalar_number {negative : Bool} {n : NumberText} {c : Char} {t rest : List Char}
    (h : IsNumber negative n (c :: t)) (hstarts : startsNumber c = true) (hrest : Delimits rest) :
    passScalar c (t ++ rest) = .ok rest := by
  have hread := h.readNumber_eq hrest .grammar
  rw [List.cons_append] at hread
  have hne (d : Char) (hd : startsNumber d = false) : c ≠ d := ne_of_startsNumber hstarts hd
  simp only [passScalar, if_neg (hne 'n' rfl), if_neg (hne 't' rfl), if_neg (hne 'f' rfl),
    if_neg (hne '"' rfl), if_pos hstarts, hread]

/-- **A value between brackets is passed over to its end.** -/
theorem IsJson.pass_eq_resume {s : List Char} (h : IsJson s) (brackets : List Bracket)
    {blanks rest : List Char} (hblanks : AllBlank blanks) (hrest : Delimits rest) :
    pass brackets (blanks ++ (s ++ rest)) = resume brackets Bool.false rest := by
  -- the brackets are general, since an item is passed over inside those of its list
  induction h generalizing brackets blanks rest with
  | null => exact pass_scalar 'n' ['u', 'l', 'l'] hblanks rfl rfl rfl
  | true => exact pass_scalar 't' ['r', 'u', 'e'] hblanks rfl rfl rfl
  | false => exact pass_scalar 'f' ['a', 'l', 's', 'e'] hblanks rfl rfl rfl
  | number h =>
    obtain ⟨c, t, rfl, hstarts, -⟩ := h.exists_head
    have hne (d : Char) (hd : startsNumber d = Bool.false) : c ≠ d := ne_of_startsNumber hstarts hd
    apply pass_scalar c t hblanks (isBlank_of_startsNumber hstarts)
    · rw [Bracket.ofOpen?, if_neg (hne '[' rfl), if_neg (hne '\x7b' rfl)]
    · exact passScalar_number h hstarts hrest
  | @string s h =>
    apply pass_scalar '"' (s ++ ['"']) hblanks rfl rfl
    rw [List.append_assoc, List.singleton_append]
    exact passText_content h rest
  | array hs h ih =>
    refine pass_listing (fun item hitem => (h item hitem).beginsItem .square) ?_ brackets rest hs
      hblanks
    intro item hitem outer first s rest hrest hnext
    rw [resume_item hnext]
    exact ih item hitem _ .nil hrest
  | @object members s hs hkeys h ih =>
    refine pass_listing ?_ ?_ brackets rest hs hblanks
    · intro item hitem
      obtain ⟨member, hmember, rfl⟩ := List.mem_map.mp hitem
      exact member.beginsItem .curly
    · intro item hitem outer first s rest hrest hnext
      obtain ⟨member, hmember, rfl⟩ := List.mem_map.mp hitem
      rw [resume_member hnext (member.passKey_eq (hkeys member hmember) rest)]
      exact ih member hmember _ member.isBlank_behind hrest

/-- **A value is passed over to its end.** -/
theorem IsJson.pass_nil {s : List Char} (h : IsJson s) {blanks rest : List Char}
    (hblanks : AllBlank blanks) (hrest : Delimits rest) :
    pass [] (blanks ++ (s ++ rest)) = .ok rest := by
  rw [h.pass_eq_resume [] hblanks hrest, resume_nil]

end IntervalDump.Json
