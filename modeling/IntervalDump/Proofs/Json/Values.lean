import IntervalDump.Proofs.Json.Numbers
/-!
# Reading any value

`Value.parse` reads a text without being told what form to expect: it takes whatever value stands
there, of the sorts that are printed, and refuses every text that is not JSON. What is printed is
read back (`parse_eq_decoded`), but for numbers that have no numeral and are read as `null`
(`Value.decoded`). It is JSON at any depth (`isJson_render`), also where it is too deep to be read.
-/

namespace IntervalDump.Json

/-! ## Readers -/

namespace Reader

variable {α : Type}

/-- The first character tells which reader to take. -/
def byHead (choose : Char → Reader α) : Reader α where
  run s :=
    match skipBlanks s with
    | [] => .error .truncated
    | c :: rest => (choose c).run (c :: rest)
  shortens {s _ _} h := by
    have h0 := length_skipBlanks_le s
    split at h
    · contradiction
    · next hs =>
      rw [hs] at h0
      exact Nat.lt_of_lt_of_le ((choose _).shortens h) h0

/-- The word `null`. -/
def null (a : α) : Reader α where
  run s :=
    match passNull s with
    | .error fault => .error fault
    | .ok s => .ok (a, s)
  shortens h := by
    split at h
    · contradiction
    · next hs =>
      simp only [Except.ok.injEq, Prod.mk.injEq] at h
      obtain ⟨-, rfl⟩ := h
      exact length_passNull hs

/-- A number stands for the nearest double, which must be finite. -/
def runNumber (s : List Char) : Except Fault (Float × List Char) :=
  match skipBlanks s with
  | [] => .error .truncated
  | c :: rest =>
    match readNumber .truncated (c :: rest) with
    | .error fault => .error fault
    | .ok (n, s) =>
      let x := (n.numeral (c == '-')).toFloat
      if x.isFinite then .ok (x, s) else .error .grammar

/-- A number, in whatever form. -/
def number : Reader Float where
  run := runNumber
  shortens {s _ _} h := by
    have h0 := length_skipBlanks_le s
    unfold runNumber at h
    split at h
    · contradiction
    · next hs =>
      rw [hs] at h0
      split at h
      · contradiction
      · next hn =>
        dsimp only at h
        split at h
        · simp only [Except.ok.injEq, Prod.mk.injEq] at h
          obtain ⟨-, rfl⟩ := h
          exact Nat.lt_of_lt_of_le (length_readNumber hn) h0
        · contradiction

/-- A key, a colon and a value. -/
def member (item : Reader α) : Reader (String × α) where
  run s :=
    match runText s with
    | .error fault => .error fault
    | .ok (key, s) =>
      match passMark ':' s with
      | .error fault => .error fault
      | .ok s =>
        match item.run s with
        | .error fault => .error fault
        | .ok (a, s) => .ok ((key, a), s)
  shortens h := by
    split at h
    · contradiction
    · next h1 =>
      split at h
      · contradiction
      · next h2 =>
        split at h
        · contradiction
        · next h3 =>
          have := length_runText h1
          have := length_passMark h2
          have := item.shortens h3
          simp only [Except.ok.injEq, Prod.mk.injEq] at h
          obtain ⟨-, rfl⟩ := h
          omega

/-- All members of an object, in their order. -/
def object (item : Reader α) : Reader (List (String × α)) where
  run s :=
    match skipBlanks s with
    | [] => .error .truncated
    | c :: rest =>
      if c = '\x7b' then runItems '\x7d' (member item) true [] rest else .error (misfit (c :: rest))
  shortens {s _ _} h := by
    have h0 := length_skipBlanks_le s
    split at h
    · contradiction
    · next hs =>
      rw [hs, List.length_cons] at h0
      split at h
      · have := length_runItems h
        omega
      · contradiction

/-- A value that is neither an array nor an object, by its first character. -/
def scalar (c : Char) : Reader Value :=
  if c = '"' then text.map .text
  else if startsNumber c then number.map .number
  else null .null

/-- Any value with at most `depth` brackets around each other. -/
def value : (depth : Nat) → Reader Value
  | 0 => byHead scalar
  | depth + 1 => byHead fun c =>
    if c = '[' then (value depth).list.map .array
    else if c = '\x7b' then (object (value depth)).map .object
    else scalar c

end Reader

namespace Value

/-- So many brackets may stand around each other in a text. -/
def maxDepth : Nat := 128

/-- Reads a text that says any one value. -/
def parse (text : String) : Except Fault Value :=
  (Reader.value maxDepth).decode text.toList

mutual

/-- What the text of a value says: of a number that is not finite, nothing. -/
def decoded : Value → Value
  | .null => .null
  | .number x => if x.isFinite then .number x else .null
  | .text s => .text s
  | .array items => .array (decodedItems items)
  | .object members => .object (decodedMembers members)

/-- What is read of items. -/
def decodedItems : List Value → List Value
  | [] => []
  | item :: items => item.decoded :: decodedItems items

/-- What is read of members. -/
def decodedMembers : List (String × Value) → List (String × Value)
  | [] => []
  | (key, item) :: members => (key, item.decoded) :: decodedMembers members

end

mutual

/-- The number of brackets around each other. -/
def depth : Value → Nat
  | .null | .number _ | .text _ => 0
  | .array items => depthItems items + 1
  | .object members => depthMembers members + 1

/-- How deep items nest. -/
def depthItems : List Value → Nat
  | [] => 0
  | item :: items => max item.depth (depthItems items)

/-- How deep the values of members nest. -/
def depthMembers : List (String × Value) → Nat
  | [] => 0
  | (_, item) :: members => max item.depth (depthMembers members)

end

/-- Items are read one by one. -/
theorem decodedItems_eq (items : List Value) : decodedItems items = items.map decoded := by
  induction items with
  | nil => rfl
  | cons item items ih => rw [decodedItems, ih, List.map_cons]

/-- Members are read one by one. -/
theorem decodedMembers_eq (members : List (String × Value)) :
    decodedMembers members = members.map fun (key, item) => (key, item.decoded) := by
  induction members with
  | nil => rfl
  | cons member members ih => rw [decodedMembers, ih, List.map_cons]

/-- A list nests no deeper than its items allow. -/
theorem depthItems_le {items : List Value} {n : Nat} (h : ∀ item ∈ items, item.depth ≤ n) :
    depthItems items ≤ n := by
  induction items with
  | nil => exact Nat.zero_le n
  | cons item items ih =>
    rw [List.forall_mem_cons] at h
    exact max_le h.1 (ih h.2)

/-- An object nests no deeper than its members allow. -/
theorem depthMembers_le {members : List (String × Value)} {n : Nat}
    (h : ∀ member ∈ members, member.2.depth ≤ n) : depthMembers members ≤ n := by
  induction members with
  | nil => exact Nat.zero_le n
  | cons member members ih =>
    rw [List.forall_mem_cons] at h
    exact max_le h.1 (ih h.2)

end Value

/-! ## What they read -/

namespace Reader

variable {α : Type} {s : List Char} {a : α}

/-- The first character chooses the reader. -/
theorem reads_byHead {choose : Char → Reader α} {c : Char} {t : List Char} (hs : s = c :: t)
    (hc : isBlank c = false) (h : (choose c).Reads s a) : (byHead choose).Reads s a := by
  intro blanks rest hblanks hrest
  have hrun := h [] rest .nil hrest
  rw [List.nil_append, hs, List.cons_append] at hrun
  simp only [byHead, hs, List.cons_append, skipBlanks_to hblanks hc, hrun]

/-- The word is read. -/
theorem reads_null (a : α) : (null a).Reads "null".toList a := by
  intro blanks rest hblanks _
  have hchars : "null".toList ++ rest = 'n' :: 'u' :: 'l' :: 'l' :: rest := rfl
  have hblank : isBlank 'n' = false := rfl
  simp only [null, passNull, hchars, skipBlanks_to hblanks hblank, if_true, passWord]

/-- A finite number is printed in characters that begin a number. -/
theorem exists_numberChars {x : Float} (hfinite : x.isFinite = true) :
    ∃ c t, numberChars x = c :: t ∧ startsNumber c = true := by
  obtain ⟨n, negative, hproper, hchars, -⟩ := exists_parts hfinite
  obtain ⟨c, t, hhead, hstarts, -⟩ := (hproper.isNumber negative).exists_head
  exact ⟨c, t, hchars.trans hhead, hstarts⟩

/-- **A finite number is read back.** -/
theorem reads_number {x : Float} (hfinite : x.isFinite = true) :
    number.Reads (numberChars x) x := by
  intro blanks rest hblanks hrest
  obtain ⟨n, negative, hproper, hchars, hvalue⟩ := exists_parts hfinite
  have hnumber := hproper.isNumber negative
  obtain ⟨c, t, hhead, hstarts, hminus⟩ := hnumber.exists_head
  have hread := hnumber.readNumber_eq hrest .truncated
  rw [hhead, List.cons_append] at hread
  show runNumber _ = _
  rw [hchars, hhead]
  simp only [runNumber, List.cons_append, skipBlanks_to hblanks (isBlank_of_startsNumber hstarts),
    hread, hminus, hvalue, hfinite, if_true]

/-- A member is read as its key and its value. -/
theorem reads_member {item : Reader α} {key : String} {value : List Char}
    (hs : IsMember key value s) (h : item.Reads value a) : (member item).Reads s (key, a) := by
  intro blanks rest hblanks hrest
  cases hs with
  | intro hbefore hbehind =>
    have hrun := h _ rest hbehind hrest
    have hkey := runText_string hblanks (Quoted.isString_chars key)
    simp only [member, List.append_assoc, List.cons_append, hkey,
      passMark_blanks hbefore (show isBlank ':' = false by rfl), hrun]

/-- An object is read member by member. -/
theorem reads_object {item : Reader α} {texts : List (List Char)} {values : List (String × α)}
    (hs : Listing .curly texts s)
    (h : List.Forall₂ ((member item).ReadsItem .curly) texts values) :
    (object item).Reads s values := by
  intro blanks rest hblanks _
  obtain ⟨t, rfl⟩ := hs.exists_opening
  have hrun := runItems_listing hs h rest
  replace hrun : runItems '\x7d' (member item) true [] (t ++ rest) = .ok (values, rest) := hrun
  simp only [object, Bracket.opening, List.cons_append,
    skipBlanks_to hblanks (show isBlank '\x7b' = false by rfl), if_true, hrun]

end Reader

/-! ## What is printed is JSON -/

/-- What is printed of a number is JSON, finite or not. -/
theorem isJson_numberChars (x : Float) : IsJson (numberChars x) := by
  by_cases hfinite : x.isFinite = true
  · obtain ⟨n, negative, hproper, hchars, -⟩ := exists_parts hfinite
    rw [hchars]
    exact .number (hproper.isNumber negative)
  · rw [numberChars, if_neg hfinite]
    exact .null

mutual

/-- **The texts of a value are JSON.** -/
theorem IsText.isJson {v : Value} {s : List Char} (h : IsText v s) : IsJson s := by
  cases h with
  | null => exact .null
  | number x => exact isJson_numberChars x
  | text t => exact .string (spells_encoded t.toList).isContent
  | array h hs => exact .array hs h.isJson
  | object h hs =>
    obtain ⟨members, rfl, hkeys, hvalues⟩ := h.exists_memberTexts
    exact .object hs hkeys hvalues

/-- The texts of items are JSON. -/
theorem AreItems.isJson {items : List Value} {texts : List (List Char)} (h : AreItems items texts) :
    ∀ s ∈ texts, IsJson s := by
  cases h with
  | nil => simp
  | cons hs h => exact List.forall_mem_cons.mpr ⟨hs.isJson, h.isJson⟩

/-- The texts of members are made of keys and values that are JSON. -/
theorem AreMembers.exists_memberTexts {members : List (String × Value)} {texts : List (List Char)}
    (h : AreMembers members texts) : ∃ parts : List MemberText,
      parts.map MemberText.chars = texts ∧ (∀ part ∈ parts, IsContent part.key) ∧
        ∀ part ∈ parts, IsJson part.value := by
  cases h with
  | nil => exact ⟨[], rfl, by simp, by simp⟩
  | cons hvalue hs h =>
    obtain ⟨part, rfl, hkey, rfl⟩ := hs.exists_memberText
    obtain ⟨parts, rfl, hkeys, hvalues⟩ := h.exists_memberTexts
    exact ⟨part :: parts, rfl, List.forall_mem_cons.mpr ⟨hkey.isContent, hkeys⟩,
      List.forall_mem_cons.mpr ⟨hvalue.isJson, hvalues⟩⟩

end

namespace Reader

/-- Values without brackets are read at any depth. -/
theorem reads_value_of_scalar {s : List Char} {v : Value} {c : Char} {t : List Char}
    (hs : s = c :: t) (hc : isBlank c = false) (hsquare : c ≠ '[') (hcurly : c ≠ '\x7b')
    (h : (scalar c).Reads s v) (depth : Nat) : (value depth).Reads s v := by
  cases depth with
  | zero => exact reads_byHead hs hc h
  | succ depth =>
    apply reads_byHead hs hc
    rwa [if_neg hsquare, if_neg hcurly]

/-- The word is read as a value. -/
theorem reads_value_null (depth : Nat) : (value depth).Reads "null".toList .null :=
  reads_value_of_scalar (c := 'n') rfl rfl (by decide) (by decide) (reads_null _) depth

/-- A text is read as a value. -/
theorem reads_value_text (depth : Nat) (t : String) :
    (value depth).Reads (Quoted.chars t) (.text t) :=
  reads_value_of_scalar (c := '"') rfl rfl (by decide) (by decide)
    ((reads_text t).map Value.text) depth

/-- A number is read as a value, or as none if it is not finite. -/
theorem reads_value_number (depth : Nat) (x : Float) :
    (value depth).Reads (numberChars x) (Value.number x).decoded := by
  rw [Value.decoded]
  split
  · next hfinite =>
    obtain ⟨c, t, hchars, hstarts⟩ := exists_numberChars hfinite
    refine reads_value_of_scalar hchars (isBlank_of_startsNumber hstarts)
      (ne_of_startsNumber hstarts rfl) (ne_of_startsNumber hstarts rfl) ?_ depth
    rw [scalar, if_neg (ne_of_startsNumber hstarts rfl), if_pos hstarts]
    exact (reads_number hfinite).map Value.number
  · next hfinite =>
    rw [numberChars, if_neg hfinite]
    exact reads_value_null depth

/-- An array is read if its items are, one level below. -/
theorem reads_value_array {depth : Nat} {texts : List (List Char)} {s : List Char}
    {values : List Value} (hs : Listing .square texts s)
    (h : List.Forall₂ ((value depth).ReadsItem .square) texts values) :
    (value (depth + 1)).Reads s (.array values) := by
  obtain ⟨t, ht⟩ : ∃ t, s = '[' :: t := by cases hs <;> exact ⟨_, rfl⟩
  apply reads_byHead ht rfl
  rw [if_pos rfl]
  exact (reads_list hs h).map Value.array

/-- An object is read if its members are, one level below. -/
theorem reads_value_object {depth : Nat} {texts : List (List Char)} {s : List Char}
    {values : List (String × Value)} (hs : Listing .curly texts s)
    (h : List.Forall₂ ((member (value depth)).ReadsItem .curly) texts values) :
    (value (depth + 1)).Reads s (.object values) := by
  obtain ⟨t, ht⟩ : ∃ t, s = '\x7b' :: t := by cases hs <;> exact ⟨_, rfl⟩
  apply reads_byHead ht rfl
  rw [if_neg (by decide), if_pos rfl]
  exact (reads_object hs h).map Value.object

end Reader

namespace Value

open Reader

/-! The induction is on the value; each bracket takes one from the depth that is left. -/

mutual

/-- **A value is read back**, if it does not nest deeper than the reader goes. -/
theorem reads_decoded {depth : Nat} (v : Value) {s : List Char} (h : IsText v s)
    (hdepth : v.depth ≤ depth) : (value depth).Reads s v.decoded := by
  match v, depth with
  | .null, depth =>
    cases h
    exact reads_value_null depth
  | .number x, depth =>
    cases h
    exact reads_value_number depth x
  | .text t, depth =>
    cases h
    exact reads_value_text depth t
  | .array items, 0 => exact absurd hdepth (Nat.not_succ_le_zero _)
  | .array items, depth + 1 =>
    cases h with
    | array h hs =>
      exact reads_value_array hs (reads_decodedItems items h (Nat.le_of_succ_le_succ hdepth))
  | .object members, 0 => exact absurd hdepth (Nat.not_succ_le_zero _)
  | .object members, depth + 1 =>
    cases h with
    | object h hs =>
      exact reads_value_object hs (reads_decodedMembers members h (Nat.le_of_succ_le_succ hdepth))

/-- Items are read back. -/
theorem reads_decodedItems {depth : Nat} (items : List Value) {texts : List (List Char)}
    (h : AreItems items texts) (hdepth : depthItems items ≤ depth) :
    List.Forall₂ ((value depth).ReadsItem .square) texts (decodedItems items) := by
  match items with
  | [] =>
    cases h
    exact .nil
  | item :: items =>
    obtain ⟨hitem, hitems⟩ := max_le_iff.mp hdepth
    cases h with
    | cons hs h =>
      exact .cons ⟨hs.isJson.beginsItem .square, reads_decoded item hs hitem⟩
        (reads_decodedItems items h hitems)

/-- Members are read back. -/
theorem reads_decodedMembers {depth : Nat} (members : List (String × Value))
    {texts : List (List Char)} (h : AreMembers members texts)
    (hdepth : depthMembers members ≤ depth) :
    List.Forall₂ ((member (value depth)).ReadsItem .curly) texts (decodedMembers members) := by
  match members with
  | [] =>
    cases h
    exact .nil
  | (key, item) :: members =>
    obtain ⟨hitem, hmembers⟩ := max_le_iff.mp hdepth
    cases h with
    | cons hvalue hs h =>
      exact .cons ⟨hs.beginsItem .curly, reads_member hs (reads_decoded item hvalue hitem)⟩
        (reads_decodedMembers members h hmembers)

end

/-- **A printed value is read back**, in either layout. -/
theorem parse_eq_decoded (style : Style) {v : Value} (hdepth : v.depth ≤ maxDepth) :
    parse (v.render style) = .ok v.decoded :=
  (reads_decoded v (v.isText_render style) hdepth).decode

/-- **A printed value is JSON**, however deep it is. -/
theorem isJson_render (style : Style) (v : Value) : IsJson (v.render style).toList :=
  (v.isText_render style).isJson

end Value

end IntervalDump.Json
