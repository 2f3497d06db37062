import Mathlib.Data.List.Forall2
import IntervalDump.Json.Reader
import IntervalDump.Proofs.Json.Spelling
/-!
# What readers read

`reader.Reads s a` says that a reader takes the text `s` for `a`, with any blanks before it and with
anything behind it that may stand behind a value. This file shows it for readers of texts, of names,
of lists and of records.

* **Texts** (`reads_string`) in quotation marks, however they are spelled.
* **Items between brackets** (`Listing`): separated by commas, with any blanks between them. The
  induction goes over what stands behind the first item (`Tail`). A list takes all items with one
  reader (`reads_list`).
* **Members** (`MemberText`). A record takes them from state to state up to the first one that it
  refuses (`Shape.Yields`, `Shape.run_listing`); where it refuses none, its text is read
  (`Shape.Fills`, `reads_record`).
-/

namespace IntervalDump.Json

variable {α β S F : Type}

/-! ## Blanks and delimiters -/

/-- No characters but blanks. -/
def AllBlank (s : List Char) : Prop :=
  ∀ c ∈ s, isBlank c = true

instance (s : List Char) : Decidable (AllBlank s) :=
  List.decidableBAll _ s

/-- No characters are blank. -/
theorem AllBlank.nil : AllBlank [] :=
  fun _ hc => nomatch hc

/-- Blanks behind blanks are blank. -/
theorem AllBlank.append {s t : List Char} (hs : AllBlank s) (ht : AllBlank t) :
    AllBlank (s ++ t) := by
  intro c hc
  rcases List.mem_append.mp hc with hc | hc
  · exact hs c hc
  · exact ht c hc

/-- Blanks are skipped. -/
theorem skipBlanks_append {blanks : List Char} (h : AllBlank blanks) (s : List Char) :
    skipBlanks (blanks ++ s) = skipBlanks s :=
  List.dropWhile_append_of_pos h

/-- Blanks are skipped, and nothing else is. -/
theorem skipBlanks_to {blanks : List Char} (h : AllBlank blanks) {c : Char}
    (hc : isBlank c = false) (s : List Char) : skipBlanks (blanks ++ c :: s) = c :: s := by
  rw [skipBlanks_append h, skipBlanks, List.dropWhile_cons_of_neg (by simp [hc])]

/-- A mark is found behind blanks. -/
theorem passMark_blanks {blanks : List Char} (h : AllBlank blanks) {mark : Char}
    (hmark : isBlank mark = false) (s : List Char) :
    passMark mark (blanks ++ mark :: s) = .ok s := by
  simp only [passMark, skipBlanks_to h hmark, if_pos]

/-- The characters that may stand right behind a value. -/
def isDelimiter (c : Char) : Bool :=
  isBlank c || c == ',' || c == ']' || c == '\x7d'

/-- Nothing at the head could still belong to a value in front of it. -/
def Delimits (s : List Char) : Prop :=
  ∀ c ∈ s.head?, isDelimiter c = true

/-- The end of the text delimits. -/
theorem Delimits.nil : Delimits [] :=
  fun _ hc => nomatch hc

/-- A comma, a bracket or a blank delimits. -/
theorem Delimits.cons {c : Char} (h : isDelimiter c = true) (s : List Char) :
    Delimits (c :: s) := by
  intro d hd
  obtain rfl := Option.some.inj hd
  exact h

/-- Blanks may stand before what delimits. -/
theorem Delimits.blanks {blanks s : List Char} (hblanks : AllBlank blanks) (h : Delimits s) :
    Delimits (blanks ++ s) := by
  cases blanks with
  | nil => exact h
  | cons c blanks =>
    have hc : isDelimiter c = true := by simp [isDelimiter, hblanks c List.mem_cons_self]
    exact .cons hc _

namespace Reader

/-- The reader takes the text for `a`: it skips blanks before it and leaves what is behind it. -/
def Reads (reader : Reader α) (s : List Char) (a : α) : Prop :=
  ∀ blanks rest, AllBlank blanks → Delimits rest →
    reader.run (blanks ++ (s ++ rest)) = .ok (a, rest)

/-- What is read may be worked on. -/
theorem Reads.map {reader : Reader α} {s : List Char} {a : α} (h : reader.Reads s a) (f : α → β) :
    (reader.map f).Reads s (f a) := by
  intro blanks rest hblanks hrest
  simp only [Reader.map, h blanks rest hblanks hrest]

/-- A reader that comes to the blanks at the end of a text decodes it. -/
theorem decode_eq {reader : Reader α} {s behind : List Char} (hbehind : AllBlank behind)
    {result : Except Fault α} (h : reader.run s = result.map fun a => (a, behind)) :
    reader.decode s = result := by
  have hskip : skipBlanks behind = [] := by
    have happend := skipBlanks_append hbehind []
    rwa [List.append_nil] at happend
  cases result with
  | error fault => simp only [decode, h, Except.map]
  | ok a => simp only [decode, h, Except.map, hskip, List.isEmpty_nil, if_true]

/-- **A text that is read is decoded.** -/
theorem Reads.decode {reader : Reader α} {s : List Char} {a : α} (h : reader.Reads s a) :
    reader.decode s = .ok a := by
  have hrun := h [] [] .nil .nil
  rw [List.nil_append, List.append_nil] at hrun
  exact decode_eq .nil hrun

/-- Working on what was decoded is decoding with a reader that works on it. -/
theorem decode_map (reader : Reader α) (f : α → β) (s : List Char) :
    (reader.map f).decode s = (reader.decode s).map f := by
  simp only [decode, Reader.map]
  cases reader.run s with
  | error fault => rfl
  | ok p =>
    dsimp only
    split <;> rfl

end Reader

/-! ## Texts -/

namespace Reader

/-- A text is read behind blanks, up to its closing quotation mark. -/
theorem runText_string {blanks : List Char} (hblanks : AllBlank blanks) {text : String}
    {s : List Char} (hs : IsString text s) (rest : List Char) :
    runText (blanks ++ (s ++ rest)) = .ok (text, rest) := by
  cases hs with
  | spelled h =>
    simp only [runText, List.cons_append, List.append_assoc, List.nil_append,
      skipBlanks_to hblanks (show isBlank '"' = false by rfl), if_pos, readText_spells h,
      List.reverse_nil, String.ofList_toList]

/-- A text is read in whatever way it is written. -/
theorem reads_string {t : String} {s : List Char} (hs : IsString t s) : text.Reads s t :=
  fun _ rest hblanks _ => runText_string hblanks hs rest

/-- A text is read as it is printed. -/
theorem reads_text (s : String) : text.Reads (Quoted.chars s) s :=
  reads_string (Quoted.isString_chars s)

/-- A known name is read as what it stands for. -/
theorem runName_string {ofName? : String → Option α} {name : String} {a : α}
    (h : ofName? name = some a) {s : List Char} (hs : IsString name s) (rest : List Char) :
    runName ofName? (s ++ rest) = .ok (a, rest) := by
  have htext := runText_string .nil hs rest
  rw [List.nil_append] at htext
  simp only [runName, htext, h]

/-- A known name is read in its first form. -/
theorem reads_named {ofName? : String → Option α} {name : String} {a : α}
    (h : ofName? name = some a) {s : List Char} (hs : IsString name s) :
    (named ofName?).Reads s a := by
  intro blanks rest hblanks _
  have hname := runName_string h hs rest
  obtain ⟨t, rfl⟩ : ∃ t, s = '"' :: t := by cases hs; exact ⟨_, rfl⟩
  show runNamed ofName? _ = _
  simp only [List.cons_append] at hname ⊢
  simp only [runNamed, skipBlanks_to hblanks (show isBlank '"' = false by rfl), if_pos, hname]

end Reader

/-! ## Items between brackets -/

/-- The character that begins a list. -/
def Bracket.opening : Bracket → Char
  | .square => '['
  | .curly => '\x7b'

/-- A closing bracket is no blank. -/
theorem isBlank_close (bracket : Bracket) : isBlank bracket.close = false := by
  cases bracket <;> rfl

/-- A closing bracket is no comma. -/
theorem comma_ne_close (bracket : Bracket) : ',' ≠ bracket.close := by
  cases bracket <;> decide

/-- A closing bracket delimits. -/
theorem isDelimiter_close (bracket : Bracket) : isDelimiter bracket.close = true := by
  cases bracket <;> rfl

/-- What stands behind the first item: the others, each behind a comma, and the bracket. -/
inductive Tail (bracket : Bracket) : List (List Char) → List Char → Prop where
  | close {blanks : List Char} (h : AllBlank blanks) : Tail bracket [] (blanks ++ [bracket.close])
  | item {before behind item s : List Char} {items : List (List Char)} (hbefore : AllBlank before)
      (hbehind : AllBlank behind) (h : Tail bracket items s) :
      Tail bracket (item :: items) (before ++ ',' :: (behind ++ (item ++ s)))

/-- Items between brackets. -/
inductive Listing (bracket : Bracket) : List (List Char) → List Char → Prop where
  | empty {blanks : List Char} (h : AllBlank blanks) :
      Listing bracket [] (bracket.opening :: (blanks ++ [bracket.close]))
  | items {blanks item s : List Char} {items : List (List Char)} (hblanks : AllBlank blanks)
      (h : Tail bracket items s) :
      Listing bracket (item :: items) (bracket.opening :: (blanks ++ (item ++ s)))

/-- What is behind an item delimits it. -/
theorem Tail.delimits {bracket : Bracket} {items : List (List Char)} {s : List Char}
    (h : Tail bracket items s) (rest : List Char) : Delimits (s ++ rest) := by
  cases h with
  | close h =>
    rw [List.append_assoc]
    exact .blanks h (.cons (isDelimiter_close bracket) _)
  | item hbefore =>
    rw [List.append_assoc]
    exact .blanks hbefore (.cons rfl _)

/-- A list begins with its bracket. -/
theorem Listing.exists_opening {bracket : Bracket} {items : List (List Char)} {s : List Char}
    (h : Listing bracket items s) : ∃ t, s = bracket.opening :: t := by
  cases h <;> exact ⟨_, rfl⟩

/-- The text is not taken for the end of the items. -/
def BeginsItem (bracket : Bracket) (s : List Char) : Prop :=
  ∃ c t, s = c :: t ∧ isBlank c = false ∧ c ≠ bracket.close

/-- A quotation mark begins an item. -/
theorem beginsItem_quote (bracket : Bracket) (s : List Char) : BeginsItem bracket ('"' :: s) :=
  ⟨'"', s, rfl, rfl, by cases bracket <;> decide⟩

/-- A text may be an item. -/
theorem IsString.beginsItem {text : String} {s : List Char} (h : IsString text s)
    (bracket : Bracket) : BeginsItem bracket s := by
  cases h
  exact beginsItem_quote bracket _

section NextItem

variable {bracket : Bracket} {blanks s : List Char} (hblanks : AllBlank blanks)
include hblanks

/-- A closing bracket ends the list. -/
theorem nextItem_close (first : Bool) (rest : List Char) :
    nextItem bracket.close first (blanks ++ bracket.close :: rest) = .ok (false, rest) := by
  simp only [nextItem, skipBlanks_to hblanks (isBlank_close bracket), if_pos]

/-- The first item stands behind the opening bracket. -/
theorem nextItem_first (hs : BeginsItem bracket s) (rest : List Char) :
    nextItem bracket.close true (blanks ++ (s ++ rest)) = .ok (true, s ++ rest) := by
  obtain ⟨c, t, rfl, hblank, hclose⟩ := hs
  simp only [nextItem, List.cons_append, skipBlanks_to hblanks hblank, if_neg hclose, if_pos]

/-- Every other item stands behind a comma. -/
theorem nextItem_comma {behind : List Char} (hbehind : AllBlank behind) (hs : BeginsItem bracket s)
    (rest : List Char) :
    nextItem bracket.close false (blanks ++ ',' :: (behind ++ (s ++ rest))) =
      .ok (true, s ++ rest) := by
  obtain ⟨c, t, rfl, hblank, hclose⟩ := hs
  simp only [nextItem, List.cons_append, skipBlanks_to hblanks (show isBlank ',' = false by rfl),
    skipBlanks_to hbehind hblank, if_neg (comma_ne_close bracket), if_neg hclose, if_pos,
    Bool.false_eq_true, if_false]

end NextItem

/-! ## Lists -/

namespace Reader

section Items

variable {close : Char} {item : Reader α} {first : Bool} {s r r' : List Char}

/-- A list that ends has the items that were read. -/
theorem runItems_of_close (h : nextItem close first s = .ok (false, r)) (out : List α) :
    runItems close item first out s = .ok (out.reverse, r) := by
  rw [runItems]
  split <;> simp_all

/-- A list that goes on has one item more. -/
theorem runItems_of_item {a : α} (h : nextItem close first s = .ok (true, r))
    (hr : item.run r = .ok (a, r')) (out : List α) :
    runItems close item first out s = runItems close item false (a :: out) r' := by
  rw [runItems]
  split
  · simp_all
  · simp_all
  · split <;> simp_all

end Items

/-- The reader of items takes the text for this item. -/
def ReadsItem (bracket : Bracket) (item : Reader α) (s : List Char) (a : α) : Prop :=
  BeginsItem bracket s ∧ item.Reads s a

variable {bracket : Bracket} {item : Reader α} {texts : List (List Char)} {values : List α}

/-- **What is behind an item is read item by item**, up to the closing bracket. -/
theorem runItems_tail {s : List Char} (hs : Tail bracket texts s)
    (h : List.Forall₂ (ReadsItem bracket item) texts values) (out : List α) (rest : List Char) :
    runItems bracket.close item false out (s ++ rest) = .ok (out.reverse ++ values, rest) := by
  induction hs generalizing values out with
  | close hblanks =>
    cases h
    rw [List.append_assoc, List.singleton_append, runItems_of_close (nextItem_close hblanks _ _),
      List.append_nil]
  | item hbefore hbehind hs ih =>
    cases h with
    | cons hitem hitems =>
      obtain ⟨hbegins, hreads⟩ := hitem
      have hrun := hreads [] _ .nil (hs.delimits rest)
      simp only [List.append_assoc, List.cons_append]
      rw [runItems_of_item (nextItem_comma hbefore hbehind hbegins _) hrun, ih hitems,
        List.reverse_cons, List.append_assoc, List.singleton_append]

/-- **All items.** -/
theorem runItems_listing {s : List Char} (hs : Listing bracket texts (bracket.opening :: s))
    (h : List.Forall₂ (ReadsItem bracket item) texts values) (rest : List Char) :
    runItems bracket.close item true [] (s ++ rest) = .ok (values, rest) := by
  cases hs with
  | empty hblanks =>
    cases h
    rw [List.append_assoc, List.singleton_append, runItems_of_close (nextItem_close hblanks _ _),
      List.reverse_nil]
  | items hblanks hs =>
    cases h with
    | cons hitem hitems =>
      obtain ⟨hbegins, hreads⟩ := hitem
      have hrun := hreads [] _ .nil (hs.delimits rest)
      simp only [List.append_assoc]
      rw [runItems_of_item (nextItem_first hblanks hbegins _) hrun, runItems_tail hs hitems,
        List.reverse_singleton, List.singleton_append]

/-- **A list is read as its items are.** -/
theorem reads_list {s : List Char} (hs : Listing .square texts s)
    (h : List.Forall₂ (ReadsItem .square item) texts values) : (list item).Reads s values := by
  intro blanks rest hblanks _
  obtain ⟨t, rfl⟩ := hs.exists_opening
  have hrun := runItems_listing hs h rest
  replace hrun : runItems ']' item true [] (t ++ rest) = .ok (values, rest) := hrun
  show runList item _ = _
  simp only [runList, Bracket.opening, List.cons_append,
    skipBlanks_to hblanks (show isBlank '[' = false by rfl), if_pos, hrun]

end Reader

/-! ## Members -/

/-- A member of an object as it stands in a text: what is between the quotation marks of its key,
the blanks around the colon, and the value. -/
structure MemberText where
  key : List Char
  before : List Char
  behind : List Char
  value : List Char
  isBlank_before : AllBlank before
  isBlank_behind : AllBlank behind

namespace MemberText

/-- The characters of a member. -/
def chars (member : MemberText) : List Char :=
  '"' :: (member.key ++ '"' :: (member.before ++ ':' :: (member.behind ++ member.value)))

variable (member : MemberText)

/-- A member begins with the quotation mark of its key. -/
theorem beginsItem (bracket : Bracket) : BeginsItem bracket member.chars :=
  beginsItem_quote bracket _

/-- The key is found behind blanks. -/
theorem passMark_quote {blanks : List Char} (hblanks : AllBlank blanks) (rest : List Char) :
    passMark '"' (blanks ++ (member.chars ++ rest)) =
      .ok (member.key ++ '"' :: (member.before ++ ':' :: (member.behind ++
        (member.value ++ rest)))) := by
  simp only [chars, List.cons_append, List.append_assoc]
  exact passMark_blanks hblanks rfl _

/-- The colon is found behind the key. -/
theorem passMark_colon (s : List Char) :
    passMark ':' (member.before ++ ':' :: (member.behind ++ s)) = .ok (member.behind ++ s) :=
  passMark_blanks member.isBlank_before rfl _

end MemberText

/-- The text of an object with these members, with blanks around it. -/
inductive IsObject (members : List MemberText) : List Char → Prop where
  | blanks {before s behind : List Char} (hbefore : AllBlank before)
      (hs : Listing .curly (members.map MemberText.chars) s) (hbehind : AllBlank behind) :
      IsObject members (before ++ (s ++ behind))

/-- A member of an object: a quoted key, a colon and a value. -/
inductive IsMember (key : String) (value : List Char) : List Char → Prop where
  | intro {before behind : List Char} (hbefore : AllBlank before) (hbehind : AllBlank behind) :
      IsMember key value (Quoted.chars key ++ (before ++ ':' :: (behind ++ value)))

/-- A member is its key and its value, with the blanks between them. -/
theorem IsMember.exists_memberText {key : String} {value s : List Char}
    (h : IsMember key value s) : ∃ member : MemberText,
      member.chars = s ∧ Spells key.toList member.key ∧ member.value = value := by
  cases h with
  | @intro before behind hbefore hbehind =>
    refine ⟨⟨key.toList.flatMap Quoted.encodeChar, before, behind, value, hbefore, hbehind⟩, ?_,
      spells_encoded key.toList, rfl⟩
    simp only [MemberText.chars, Quoted.chars, List.cons_append, List.append_assoc,
      List.nil_append]

/-- A member may stand in any list. -/
theorem IsMember.beginsItem {key : String} {value s : List Char} (h : IsMember key value s)
    (bracket : Bracket) : BeginsItem bracket s := by
  obtain ⟨member, rfl, -⟩ := h.exists_memberText
  exact member.beginsItem bracket

namespace Reader

section NamedObject

variable {ofName? : String → Option α} {name : String} {a : α} (h : ofName? name = some a)
  {member : MemberText} (hkey : Spells name.toList member.key)
  (hvalue : member.value = "null".toList)
include h hkey hvalue

/-- An object with the name as its key is read as what the name stands for. -/
theorem runNameObject_member {blanks behind : List Char} (hblanks : AllBlank blanks)
    (hbehind : AllBlank behind) (rest : List Char) :
    runNameObject ofName? (blanks ++ (member.chars ++ (behind ++ '\x7d' :: rest))) =
      .ok (a, rest) := by
  have hname := runName_string h (.spelled hkey)
    (member.before ++ ':' :: (member.behind ++ (member.value ++ (behind ++ '\x7d' :: rest))))
  have hnull : passNull (member.behind ++ (member.value ++ (behind ++ '\x7d' :: rest))) =
      .ok (behind ++ '\x7d' :: rest) := by
    have hchars (t : List Char) : "null".toList ++ t = 'n' :: 'u' :: 'l' :: 'l' :: t := rfl
    simp only [passNull, hvalue, hchars,
      skipBlanks_to member.isBlank_behind (show isBlank 'n' = false by rfl), if_pos, passWord]
  simp only [List.cons_append, List.append_assoc, List.nil_append] at hname
  simp only [runNameObject, runNameKey, MemberText.chars, List.cons_append, List.append_assoc,
    skipBlanks_to hblanks (show isBlank '"' = false by rfl), if_pos, hname, member.passMark_colon,
    hnull, passMark_blanks hbehind (show isBlank '\x7d' = false by rfl)]

/-- A name may also be the only key of an object, with `null`. -/
theorem reads_named_object {s : List Char} (hs : Listing .curly [member.chars] s) :
    (named ofName?).Reads s a := by
  intro blanks rest hblanks _
  cases hs with
  | items hbefore htail =>
    cases htail with
    | close hbehind =>
      have hobject := runNameObject_member h hkey hvalue hbefore hbehind rest
      show runNamed ofName? _ = _
      simp only [Bracket.opening, Bracket.close, List.cons_append, List.append_assoc,
        List.nil_append] at hobject ⊢
      rw [runNamed, skipBlanks_to hblanks (show isBlank '\x7b' = false by rfl)]
      exact hobject

end NamedObject

section Members

variable {shape : Shape F S} {first : Bool} {state state' : S} {s r r' : List Char}

/-- An object that ends leaves what was read. -/
theorem runMembers_of_close (h : nextItem '\x7d' first s = .ok (false, r)) :
    shape.runMembers first state s = .ok (state, r) := by
  rw [Shape.runMembers]
  split <;> simp_all

/-- An object that goes on reads its next member. -/
theorem runMembers_of_member (h : nextItem '\x7d' first s = .ok (true, r))
    (hr : shape.runMember state r = .ok (state', r')) :
    shape.runMembers first state s = shape.runMembers false state' r' := by
  rw [Shape.runMembers]
  split
  · simp_all
  · simp_all
  · split <;> simp_all

/-- A member that is refused ends the reading. -/
theorem runMembers_of_fault {fault : Fault} (h : nextItem '\x7d' first s = .ok (true, r))
    (hr : shape.runMember state r = .error fault) :
    shape.runMembers first state s = .error fault := by
  rw [Shape.runMembers]
  split
  · simp_all
  · simp_all
  · split <;> simp_all

end Members

namespace Shape

variable {shape : Shape F S} {state : S}

section OneMember

variable {key : String} {member : MemberText} (hkey : Spells key.toList member.key) {field : F}
include hkey

/-- **A member of a field that is new is read into it.** -/
theorem runMember_known (hfield : shape.field? key = some field)
    (hholds : shape.holds state field = false) {next : S}
    (hreads : (shape.member field state).Reads member.value next) {rest : List Char}
    (hrest : Delimits rest) :
    shape.runMember state (member.chars ++ rest) = .ok (next, rest) := by
  have hquote := member.passMark_quote .nil rest
  rw [List.nil_append] at hquote
  simp only [runMember, hquote, readText_spells hkey, List.reverse_nil, List.nil_append,
    String.ofList_toList, hfield, hholds, member.passMark_colon,
    hreads member.behind rest member.isBlank_behind hrest, Bool.false_eq_true, if_false]

/-- The fault is known from the key: the value is not looked at. -/
theorem runMember_again (hfield : shape.field? key = some field)
    (hholds : shape.holds state field = true) (rest : List Char) :
    shape.runMember state (member.chars ++ rest) = .error .shape := by
  have hquote := member.passMark_quote .nil rest
  rw [List.nil_append] at hquote
  simp only [runMember, hquote, readText_spells hkey, List.reverse_nil, List.nil_append,
    String.ofList_toList, hfield, hholds, if_true]

/-- A member of no field is passed over. -/
theorem runMember_unknown (hfield : shape.field? key = none) {rest : List Char}
    (hpass : pass [] (member.behind ++ (member.value ++ rest)) = .ok rest) :
    shape.runMember state (member.chars ++ rest) = .ok (state, rest) := by
  have hquote := member.passMark_quote .nil rest
  rw [List.nil_append] at hquote
  simp only [runMember, hquote, readText_spells hkey, List.reverse_nil, List.nil_append,
    String.ofList_toList, hfield, member.passMark_colon, hpass]

end OneMember

/-- A key that is not the text of anything is refused before anything is made of it. -/
theorem runMember_noText {member : MemberText} (hkey : IsContent member.key)
    (hnone : ∀ text, ¬ Spells text member.key) (rest : List Char) :
    shape.runMember state (member.chars ++ rest) = .error .grammar := by
  have hquote := member.passMark_quote .nil rest
  rw [List.nil_append] at hquote
  rcases hkey.isDecided with ⟨text, hspells⟩ | hrefused
  · exact absurd hspells (hnone text)
  · simp only [runMember, hquote, hrefused]

/-- What comes of the members: the state behind the last one, or the fault of the first one that is
refused. What is behind that one does not matter. -/
inductive Yields (shape : Shape F S) : S → List MemberText → Except Fault S → Prop where
  | nil (state : S) : Yields shape state [] (.ok state)
  | next {state next : S} {member : MemberText} {members : List MemberText}
      {result : Except Fault S}
      (hmember : ∀ rest, Delimits rest →
        shape.runMember state (member.chars ++ rest) = .ok (next, rest))
      (h : Yields shape next members result) : Yields shape state (member :: members) result
  | fault {state : S} {member : MemberText} {fault : Fault} (members : List MemberText)
      (hmember : ∀ rest, Delimits rest →
        shape.runMember state (member.chars ++ rest) = .error fault) :
      Yields shape state (member :: members) (.error fault)

/-- Behind a member, the other members are read one after the other. -/
theorem runMembers_tail {members : List MemberText} {s : List Char}
    (hs : Tail .curly (members.map MemberText.chars) s) {result : Except Fault S}
    (h : shape.Yields state members result) (rest : List Char) :
    shape.runMembers false state (s ++ rest) = result.map fun final => (final, rest) := by
  induction h generalizing s with
  | nil state =>
    cases hs with
    | close hblanks =>
      rw [List.append_assoc, List.singleton_append]
      exact runMembers_of_close (nextItem_close hblanks _ _)
  | @next state next member members result hmember h ih =>
    cases hs with
    | item hbefore hbehind hs =>
      simp only [List.append_assoc, List.cons_append]
      rw [← ih hs]
      exact runMembers_of_member (nextItem_comma hbefore hbehind (member.beginsItem .curly) _)
        (hmember _ (hs.delimits rest))
  | @fault state member fault members hmember =>
    cases hs with
    | item hbefore hbehind hs =>
      simp only [List.append_assoc, List.cons_append]
      exact runMembers_of_fault (nextItem_comma hbefore hbehind (member.beginsItem .curly) _)
        (hmember _ (hs.delimits rest))

/-- **A record is read as its members yield.** -/
theorem run_listing {members : List MemberText} {s : List Char}
    (hs : Listing .curly (members.map MemberText.chars) s) {result : Except Fault S}
    (h : shape.Yields state members result) {blanks : List Char} (hblanks : AllBlank blanks)
    (rest : List Char) :
    (record shape state).run (blanks ++ (s ++ rest)) =
      result.map fun final => (final, rest) := by
  obtain ⟨t, rfl⟩ := hs.exists_opening
  have hrun : shape.runMembers true state (t ++ rest) = result.map fun final => (final, rest) := by
    -- the first member is told from the others, as no comma stands before it
    cases h with
    | nil =>
      cases hs with
      | empty hempty =>
        rw [List.append_assoc, List.singleton_append]
        exact runMembers_of_close (nextItem_close hempty _ _)
    | @next _ next member members _ hmember h =>
      cases hs with
      | items hbefore hs =>
        simp only [List.append_assoc]
        rw [← runMembers_tail hs h rest]
        exact runMembers_of_member (nextItem_first hbefore (member.beginsItem .curly) _)
          (hmember _ (hs.delimits rest))
    | @fault _ member fault members hmember =>
      cases hs with
      | items hbefore hs =>
        simp only [List.append_assoc]
        exact runMembers_of_fault (nextItem_first hbefore (member.beginsItem .curly) _)
          (hmember _ (hs.delimits rest))
  have hblank : isBlank '\x7b' = false := rfl
  show shape.run state _ = _
  simp only [Shape.run, Bracket.opening, List.cons_append, skipBlanks_to hblanks hblank, if_pos,
    hrun]

/-- **An object comes to what its members yield.** -/
theorem decode_object {members : List MemberText} {s : List Char} (hs : IsObject members s)
    {result : Except Fault S} (h : shape.Yields state members result) :
    (record shape state).decode s = result := by
  cases hs with
  | @blanks before s behind hbefore hs hbehind =>
    exact decode_eq hbehind (run_listing hs h hbefore behind)

/-- The members take the state to another one. All of them are known, and none comes twice. -/
inductive Fills (shape : Shape F S) : S → List (List Char) → S → Prop where
  | nil (state : S) : Fills shape state [] state
  | cons {state next final : S} {field : F} {value s : List Char} {members : List (List Char)}
      (hkey : shape.field? (shape.key field) = some field)
      (hholds : shape.holds state field = false)
      (hreads : (shape.member field state).Reads value next)
      (hs : IsMember (shape.key field) value s) (h : Fills shape next members final) :
      Fills shape state (s :: members) final

/-- Members that fill the fields yield what is in them. -/
theorem Fills.exists_yields {final : S} {texts : List (List Char)}
    (h : shape.Fills state texts final) : ∃ members : List MemberText,
      members.map MemberText.chars = texts ∧ shape.Yields state members (.ok final) := by
  induction h with
  | nil state => exact ⟨[], rfl, .nil state⟩
  | cons hkey hholds hreads hs h ih =>
    obtain ⟨member, rfl, hspells, rfl⟩ := hs.exists_memberText
    obtain ⟨members, rfl, hyields⟩ := ih
    exact ⟨member :: members, rfl,
      .next (fun _ hrest => runMember_known hspells hkey hholds hreads hrest) hyields⟩

end Shape

/-- **An object whose members fill the fields is read.** -/
theorem reads_record {shape : Shape F S} {texts : List (List Char)} {s : List Char}
    (hs : Listing .curly texts s) {start final : S} (h : shape.Fills start texts final) :
    (record shape start).Reads s final := by
  intro blanks rest hblanks _
  obtain ⟨members, rfl, hyields⟩ := h.exists_yields
  exact Shape.run_listing hs hyields hblanks rest

end Reader

end IntervalDump.Json
