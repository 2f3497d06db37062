import IntervalDump.Json.Value
import IntervalDump.Proofs.Json.Reading
/-!
# What is printed

`IsText value s` says that `s` is a text of `value`: brackets, commas and colons stand where they
belong, with any blanks around them. Both layouts print such a text (`isText_render`). A proof about
what is read from a printed value goes by this relation and never by a layout.
-/

namespace IntervalDump.Json

/-- The text of a number. One that is not finite has no numeral. -/
def numberChars (x : Float) : List Char :=
  if x.isFinite then numberLayout.bitsText x.toBits else "null".toList

mutual

/-- The text says the value. -/
inductive IsText : Value → List Char → Prop where
  | null : IsText .null "null".toList
  | number (x : Float) : IsText (.number x) (numberChars x)
  | text (s : String) : IsText (.text s) (Quoted.chars s)
  | array {items : List Value} {texts : List (List Char)} {s : List Char}
      (h : AreItems items texts) (hs : Listing .square texts s) : IsText (.array items) s
  | object {members : List (String × Value)} {texts : List (List Char)} {s : List Char}
      (h : AreMembers members texts) (hs : Listing .curly texts s) : IsText (.object members) s

/-- Each text says the value at its place. -/
inductive AreItems : List Value → List (List Char) → Prop where
  | nil : AreItems [] []
  | cons {item : Value} {items : List Value} {s : List Char} {texts : List (List Char)}
      (hs : IsText item s) (h : AreItems items texts) : AreItems (item :: items) (s :: texts)

/-- Each text gives the key at its place and says the value. -/
inductive AreMembers : List (String × Value) → List (List Char) → Prop where
  | nil : AreMembers [] []
  | cons {key : String} {item : Value} {members : List (String × Value)} {value s : List Char}
      {texts : List (List Char)} (hvalue : IsText item value) (hs : IsMember key value s)
      (h : AreMembers members texts) : AreMembers ((key, item) :: members) (s :: texts)

end

/-! ## Writing adds to what is written -/

/-- The step adds the text to what was written before. -/
def Appends (step : String → String) (s : List Char) : Prop :=
  ∀ out, (step out).toList = out.toList ++ s

/-- A new line is printed as blanks. -/
theorem Style.appends_line (style : Style) (depth : Nat) :
    ∃ blanks, AllBlank blanks ∧ Appends (style.line depth) blanks := by
  cases style with
  | compact => exact ⟨[], .nil, fun out => (List.append_nil _).symm⟩
  | pretty =>
    induction depth with
    | zero => exact ⟨['\n'], by decide, fun _ => String.toList_push _⟩
    | succ depth ih =>
      obtain ⟨blanks, hblanks, hline⟩ := ih
      refine ⟨blanks ++ [' ', ' '], hblanks.append (by decide), fun out => ?_⟩
      have hpush : Style.pretty.line (depth + 1) out =
          ((Style.pretty.line depth out).push ' ').push ' ' := rfl
      rw [hpush, String.toList_push, String.toList_push, hline]
      simp only [List.append_assoc, List.cons_append, List.nil_append]

/-- A colon is printed with blanks behind it. -/
theorem Style.appends_colon (style : Style) :
    ∃ blanks, AllBlank blanks ∧ Appends style.colon (':' :: blanks) := by
  cases style with
  | compact => exact ⟨[], .nil, fun _ => String.toList_push _⟩
  | pretty =>
    refine ⟨[' '], by decide, fun out => ?_⟩
    simp only [Style.colon, String.toList_push, List.append_assoc, List.cons_append,
      List.nil_append]

/-- Pushing characters appends them. -/
theorem foldl_push (chars : List Char) (out : String) :
    (chars.foldl String.push out).toList = out.toList ++ chars := by
  induction chars generalizing out with
  | nil => exact (List.append_nil _).symm
  | cons c chars ih =>
    rw [List.foldl_cons, ih, String.toList_push, List.append_assoc, List.singleton_append]

/-- A text is printed between quotation marks. -/
theorem appends_quoted (text : String) : Appends (Quoted.write text) (Quoted.chars text) := by
  have hchars (chars : List Char) (out : String) :
      (chars.foldl (fun out c => (Quoted.encodeChar c).foldl String.push out) out).toList =
        out.toList ++ chars.flatMap Quoted.encodeChar := by
    induction chars generalizing out with
    | nil => exact (List.append_nil _).symm
    | cons c chars ih =>
      rw [List.foldl_cons, ih, foldl_push, List.append_assoc, List.flatMap_cons]
  intro out
  rw [Quoted.write, String.toList_push, hchars, String.toList_push, Quoted.chars]
  simp only [List.append_assoc, List.cons_append, List.nil_append]

/-- A number is printed as its characters. -/
theorem appends_number (x : Float) : Appends (writeNumber x) (numberChars x) := by
  intro out
  unfold writeNumber numberChars
  split
  · rw [String.toList_append, Layout.text, String.toList_ofList]
  · exact String.toList_append

/-! ## Values -/

/-- What is appended for the items behind the first one closes them. -/
def AppendsTail (bracket : Bracket) (step : String → String) (texts : List (List Char)) : Prop :=
  ∃ s, Appends step s ∧
    ∀ blanks, AllBlank blanks → Tail bracket texts (s ++ (blanks ++ [bracket.close]))

/-- Behind the last item, nothing more is printed than the closing bracket. -/
theorem appendsTail_nil (bracket : Bracket) : AppendsTail bracket id [] :=
  ⟨[], fun _ => (List.append_nil _).symm, fun _ h => .close h⟩

/-- Before every other item, a comma is printed. -/
theorem AppendsTail.cons {bracket : Bracket} {item step : String → String} {s : List Char}
    {texts : List (List Char)} (hitem : Appends item s) (h : AppendsTail bracket step texts)
    (style : Style) (depth : Nat) :
    AppendsTail bracket (fun out => step (item (style.line depth (out.push ','))))
      (s :: texts) := by
  obtain ⟨blanks, hblanks, hline⟩ := style.appends_line depth
  obtain ⟨t, hstep, htail⟩ := h
  refine ⟨',' :: (blanks ++ (s ++ t)), fun out => ?_, fun behind hbehind => ?_⟩
  · rw [hstep, hitem, hline, String.toList_push]
    simp only [List.append_assoc, List.cons_append, List.nil_append]
  · have h : Tail bracket (s :: texts)
        ([] ++ ',' :: (blanks ++ (s ++ (t ++ (behind ++ [bracket.close]))))) :=
      .item .nil hblanks (htail behind hbehind)
    simpa only [List.append_assoc, List.cons_append, List.nil_append] using h

/-- The first item, the others and the brackets. -/
theorem AppendsTail.listing {bracket : Bracket} {item step : String → String} {s : List Char}
    {texts : List (List Char)} (hitem : Appends item s) (h : AppendsTail bracket step texts)
    (style : Style) (depth : Nat) :
    ∃ t, Listing bracket (s :: texts) t ∧
      Appends (fun out => (style.line depth (step (item (style.line (depth + 1)
        (out.push bracket.opening))))).push bracket.close) t := by
  obtain ⟨before, hbefore, hopen⟩ := style.appends_line (depth + 1)
  obtain ⟨behind, hbehind, hclose⟩ := style.appends_line depth
  obtain ⟨t, hstep, htail⟩ := h
  refine ⟨_, .items hbefore (htail behind hbehind), fun out => ?_⟩
  rw [String.toList_push, hclose, hstep, hitem, hopen, String.toList_push]
  simp only [List.append_assoc, List.cons_append, List.nil_append]

/-- A member is printed as its key, a colon and its value. -/
theorem appends_member (style : Style) (key : String) {item : String → String} {s : List Char}
    (hitem : Appends item s) :
    ∃ t, IsMember key s t ∧ Appends (fun out => item (style.colon (Quoted.write key out))) t := by
  obtain ⟨blanks, hblanks, hcolon⟩ := style.appends_colon
  refine ⟨_, .intro .nil hblanks, fun out => ?_⟩
  rw [hitem, hcolon, appends_quoted]
  simp only [List.append_assoc, List.cons_append, List.nil_append]

namespace Value

mutual

/-- **A value is printed as a text of it.** -/
theorem appends_write (style : Style) (depth : Nat) (value : Value) :
    ∃ s, IsText value s ∧ Appends (write style depth value) s := by
  match value with
  | .null => exact ⟨_, .null, fun out => by rw [write, String.toList_append]⟩
  | .number x => exact ⟨_, .number x, fun out => by rw [write, appends_number]⟩
  | .text t => exact ⟨_, .text t, fun out => by rw [write, appends_quoted]⟩
  | .array [] =>
    refine ⟨_, .array .nil (.empty .nil), fun out => ?_⟩
    rw [write, String.toList_append]
    rfl
  | .array (item :: items) =>
    obtain ⟨s, hs, hitem⟩ := appends_write style (depth + 1) item
    obtain ⟨texts, htexts, hitems⟩ := appends_writeItems style (depth + 1) items
    obtain ⟨t, ht, happends⟩ := hitems.listing hitem style depth
    exact ⟨t, .array (.cons hs htexts) ht, fun out => by rw [write]; exact happends out⟩
  | .object [] =>
    refine ⟨_, .object .nil (.empty .nil), fun out => ?_⟩
    rw [write, String.toList_push, String.toList_push]
    simp only [List.append_assoc, List.cons_append, List.nil_append, Bracket.opening, Bracket.close]
  | .object ((key, item) :: members) =>
    obtain ⟨value, hvalue, hitem⟩ := appends_write style (depth + 1) item
    obtain ⟨s, hs, hmember⟩ := appends_member style key hitem
    obtain ⟨texts, htexts, hmembers⟩ := appends_writeMembers style (depth + 1) members
    obtain ⟨t, ht, happends⟩ := hmembers.listing hmember style depth
    exact ⟨t, .object (.cons hvalue hs htexts) ht, fun out => by rw [write]; exact happends out⟩

/-- Items are printed as texts of them. -/
theorem appends_writeItems (style : Style) (depth : Nat) (items : List Value) :
    ∃ texts, AreItems items texts ∧ AppendsTail .square (writeItems style depth items) texts := by
  match items with
  | [] => exact ⟨[], .nil, appendsTail_nil .square⟩
  | item :: items =>
    obtain ⟨s, hs, hitem⟩ := appends_write style depth item
    obtain ⟨texts, htexts, hitems⟩ := appends_writeItems style depth items
    exact ⟨s :: texts, .cons hs htexts, hitems.cons hitem style depth⟩

/-- Members are printed as texts of them. -/
theorem appends_writeMembers (style : Style) (depth : Nat) (members : List (String × Value)) :
    ∃ texts, AreMembers members texts ∧
      AppendsTail .curly (writeMembers style depth members) texts := by
  match members with
  | [] => exact ⟨[], .nil, appendsTail_nil .curly⟩
  | (key, item) :: members =>
    obtain ⟨value, hvalue, hitem⟩ := appends_write style depth item
    obtain ⟨s, hs, hmember⟩ := appends_member style key hitem
    obtain ⟨texts, htexts, hmembers⟩ := appends_writeMembers style depth members
    exact ⟨s :: texts, .cons hvalue hs htexts, hmembers.cons hmember style depth⟩

end

/-- **What is printed is a text of the value, in either layout.** -/
theorem isText_render (style : Style) (value : Value) :
    IsText value (render style value).toList := by
  obtain ⟨s, hs, hwrite⟩ := appends_write style 0 value
  rw [render, hwrite, String.toList_empty, List.nil_append]
  exact hs

end Value

/-! ## Reading what is printed -/

section Reads

variable {α : Type} {item : Reader α} {toValue : α → Value}

/-- If every text of an item is read, then the texts of all items are. -/
theorem AreItems.reads
    (hitem : ∀ a s, IsText (toValue a) s → item.ReadsItem .square s a) {as : List α}
    {texts : List (List Char)} (h : AreItems (as.map toValue) texts) :
    List.Forall₂ (item.ReadsItem .square) texts as := by
  induction as generalizing texts with
  | nil =>
    cases h
    exact .nil
  | cons a as ih =>
    cases h with
    | cons hs h => exact .cons (hitem a _ hs) (ih h)

/-- A list of values is read if every one of them is. -/
theorem IsText.reads_list
    (hitem : ∀ a s, IsText (toValue a) s → item.ReadsItem .square s a) {as : List α}
    {s : List Char} (h : IsText (.array (as.map toValue)) s) : item.list.Reads s as := by
  cases h with
  | array h hs => exact Reader.reads_list hs (h.reads hitem)

/-- A text is read back. -/
theorem IsText.reads_text {t : String} {s : List Char} (h : IsText (.text t) s) :
    Reader.text.Reads s t := by
  cases h
  exact Reader.reads_text t

/-- A text may be an item. -/
theorem IsText.beginsItem_text {t : String} {s : List Char} (h : IsText (.text t) s)
    (bracket : Bracket) : BeginsItem bracket s := by
  cases h
  exact (Quoted.isString_chars t).beginsItem bracket

end Reads

end IntervalDump.Json
