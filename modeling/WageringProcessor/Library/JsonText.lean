import Mathlib.Data.List.TakeWhile

/-!
# JSON values and their compact text

The text is the one of ECMAScript's `JSON.stringify` without indentation.  A number is kept as the
text the language prints for it.  Strings are quoted by escaping character by character, so a
quoted string is read back unambiguously from the front of any text (`quote_append_inj`), and so is
every value (`render_append_inj`): what follows a number never continues it.
-/

namespace Library.JsonText

inductive Json
  | null
  | bool (b : Bool)
  | number (text : String)
  | string (s : String)
  | array (items : List Json)
  | object (members : List (String × Json))

/-- The value of member `key`; `none` where ECMAScript reads `undefined`. -/
def Json.get? : Json → String → Option Json
  | .object members, key => (members.find? fun m => m.1 = key).map Prod.snd
  | _, _ => none

def hexDigit (n : Nat) : Char :=
  Char.ofNat (if n < 10 then 48 + n else 87 + n)

def escapeChar (c : Char) : List Char :=
  if c = '"' then ['\\', '"']
  else if c = '\\' then ['\\', '\\']
  else if c.toNat = 8 then ['\\', 'b']
  else if c.toNat = 9 then ['\\', 't']
  else if c.toNat = 10 then ['\\', 'n']
  else if c.toNat = 12 then ['\\', 'f']
  else if c.toNat = 13 then ['\\', 'r']
  else if c.toNat < 32 then ['\\', 'u', '0', '0', hexDigit (c.toNat / 16), hexDigit (c.toNat % 16)]
  else [c]

def quote (s : String) : List Char :=
  '"' :: (s.toList.flatMap escapeChar ++ ['"'])

mutual

def render : Json → List Char
  | .null => ['n', 'u', 'l', 'l']
  | .bool true => ['t', 'r', 'u', 'e']
  | .bool false => ['f', 'a', 'l', 's', 'e']
  | .number text => text.toList
  | .string s => quote s
  | .array items => '[' :: renderItems items ++ [']']
  | .object members => '\x7b' :: renderMembers members ++ ['\x7d']

def renderItems : List Json → List Char
  | [] => []
  | [v] => render v
  | v :: w :: rest => render v ++ ',' :: renderItems (w :: rest)

def renderMembers : List (String × Json) → List Char
  | [] => []
  | [(k, v)] => quote k ++ ':' :: render v
  | (k, v) :: m :: rest => quote k ++ ':' :: render v ++ ',' :: renderMembers (m :: rest)

end

def stringify (v : Json) : String := String.ofList (render v)

/-! ## Quoted strings are read back from the front of a text -/

def hexValue (c : Char) : Nat :=
  if c.toNat < 58 then c.toNat - 48 else c.toNat - 87

/-- The character that an escaped text starts with, and the text after it; `none` at the closing
quote. -/
def readChar : List Char → Option (Char × List Char)
  | '\\' :: 'u' :: '0' :: '0' :: hi :: lo :: rest =>
    some (Char.ofNat (16 * hexValue hi + hexValue lo), rest)
  | '\\' :: 'b' :: rest => some (Char.ofNat 8, rest)
  | '\\' :: 't' :: rest => some (Char.ofNat 9, rest)
  | '\\' :: 'n' :: rest => some (Char.ofNat 10, rest)
  | '\\' :: 'f' :: rest => some (Char.ofNat 12, rest)
  | '\\' :: 'r' :: rest => some (Char.ofNat 13, rest)
  | '\\' :: c :: rest => some (c, rest)
  | '"' :: _ => none
  | c :: rest => some (c, rest)
  | [] => none

private theorem hexDigits_value (n : Nat) (h : n < 32) :
    16 * hexValue (hexDigit (n / 16)) + hexValue (hexDigit (n % 16)) = n := by
  revert n
  decide

private theorem ofNat_of_toNat {c : Char} {n : Nat} (h : c.toNat = n) : Char.ofNat n = c := by
  rw [← h, Char.ofNat_toNat]

theorem readChar_escapeChar (c : Char) (rest : List Char) :
    readChar (escapeChar c ++ rest) = some (c, rest) := by
  unfold escapeChar
  split
  · rename_i h
    simp [h, readChar]
  split
  · rename_i h
    simp [h, readChar]
  split
  · rename_i h
    exact congrArg (fun x => some (x, rest)) (ofNat_of_toNat h)
  split
  · rename_i h
    exact congrArg (fun x => some (x, rest)) (ofNat_of_toNat h)
  split
  · rename_i h
    exact congrArg (fun x => some (x, rest)) (ofNat_of_toNat h)
  split
  · rename_i h
    exact congrArg (fun x => some (x, rest)) (ofNat_of_toNat h)
  split
  · rename_i h
    exact congrArg (fun x => some (x, rest)) (ofNat_of_toNat h)
  split
  · rename_i h
    have hvalue : Char.ofNat (16 * hexValue (hexDigit (c.toNat / 16)) +
        hexValue (hexDigit (c.toNat % 16))) = c := by
      rw [hexDigits_value _ h, Char.ofNat_toNat]
    exact congrArg (fun x => some (x, rest)) hvalue
  · -- a character that stands for itself
    rename_i hquote hback _ _ _ _ _ _
    simp only [List.singleton_append]
    unfold readChar
    split <;> simp_all

theorem readChar_quote (rest : List Char) : readChar ('"' :: rest) = none := rfl

/-- A quoted string is determined by any text that starts with it, and so is what follows it. -/
theorem quote_append_inj {s t : String} {r r' : List Char}
    (h : quote s ++ r = quote t ++ r') : s = t ∧ r = r' := by
  -- one character at a time; a quotation mark is never read as one
  have key : ∀ as bs : List Char,
      as.flatMap escapeChar ++ '"' :: r = bs.flatMap escapeChar ++ '"' :: r' →
        as = bs ∧ r = r' := by
    intro as
    induction as with
    | nil =>
      intro bs hbs
      cases bs with
      | nil => simpa using hbs
      | cons b bs =>
        have hread := congrArg readChar hbs
        simp [readChar_quote, List.append_assoc, readChar_escapeChar] at hread
    | cons a as ih =>
      intro bs hbs
      cases bs with
      | nil =>
        have hread := congrArg readChar hbs
        simp [readChar_quote, List.append_assoc, readChar_escapeChar] at hread
      | cons b bs =>
        have hread := congrArg readChar hbs
        simp only [List.flatMap_cons, List.append_assoc, readChar_escapeChar, Option.some.injEq,
          Prod.mk.injEq] at hread
        -- the first characters are read back from both texts
        obtain ⟨rfl, hrest⟩ := hread
        obtain ⟨rfl, hr⟩ := ih bs hrest
        exact ⟨rfl, hr⟩
  obtain ⟨hchars, hr⟩ := key s.toList t.toList (by simpa [quote] using h)
  exact ⟨String.toList_inj.mp hchars, hr⟩

/-! ## Numbers end where the next token starts -/

def numeralChar (c : Char) : Bool :=
  c.isDigit || c == '-' || c == '+' || c == '.' || c == 'e'

/-- The text begins like a number and has no character but those of numbers. -/
def Numeral (text : String) : Prop :=
  (∃ c rest, text.toList = c :: rest ∧ (c.isDigit || c == '-') = true) ∧
    ∀ c ∈ text.toList, numeralChar c = true

/-- The text is over, or goes on with a character that no number has. -/
def Delimited (r : List Char) : Prop := ∀ c, r.head? = some c → numeralChar c = false

theorem delimited_nil : Delimited [] := fun _ h => by cases h

theorem delimited_cons {c : Char} (h : numeralChar c = false) (r : List Char) :
    Delimited (c :: r) := by
  intro d hd
  rw [← Option.some.inj hd]
  exact h

theorem numeral_append_inj {s t : String} {r r' : List Char} (hs : Numeral s) (ht : Numeral t)
    (hr : Delimited r) (hr' : Delimited r') (h : s.toList ++ r = t.toList ++ r') :
    s = t ∧ r = r' := by
  have htake : ∀ (u : String) (q : List Char), Numeral u → Delimited q →
      (u.toList ++ q).takeWhile numeralChar = u.toList := by
    intro u q hu hq
    rw [List.takeWhile_append_of_pos hu.2]
    cases q with
    | nil => rw [List.takeWhile_nil, List.append_nil]
    | cons c q => rw [List.takeWhile_cons, hq c rfl, if_neg (by decide), List.append_nil]
  have hlist : s.toList = t.toList := by
    rw [← htake s r hs hr, h, htake t r' ht hr']
  rw [hlist] at h
  exact ⟨String.toList_inj.mp hlist, List.append_cancel_left h⟩

theorem Numeral.append_ne {text : String} (h : Numeral text) {c : Char} (r rest : List Char)
    (hc : (c.isDigit || c == '-') = false) : text.toList ++ r ≠ c :: rest := by
  intro heq
  obtain ⟨d, tail, htext, hd⟩ := h.1
  rw [htext, List.cons_append] at heq
  rw [(List.cons.inj heq).1, hc] at hd
  cases hd

/-! ## The text of a value determines it -/

mutual

/-- Every number in the value is one. -/
def Numerals : Json → Prop
  | .number text => Numeral text
  | .array items => NumeralsItems items
  | .object members => NumeralsMembers members
  | _ => True

def NumeralsItems : List Json → Prop
  | [] => True
  | v :: rest => Numerals v ∧ NumeralsItems rest

def NumeralsMembers : List (String × Json) → Prop
  | [] => True
  | (_, v) :: rest => Numerals v ∧ NumeralsMembers rest

end

theorem numeralsMembers_iff {members : List (String × Json)} :
    NumeralsMembers members ↔ ∀ m ∈ members, Numerals m.2 := by
  induction members with
  | nil => simp [NumeralsMembers]
  | cons m rest ih =>
    rw [NumeralsMembers, ih, List.forall_mem_cons]

/-- The text of a value does not start with what closes an array. -/
private theorem render_head {v : Json} (hv : Numerals v) (r : List Char) :
    ∃ c, (render v ++ r).head? = some c ∧ c ≠ ']' := by
  cases v with
  | null => exact ⟨'n', rfl, by decide⟩
  | bool b => cases b <;> exact ⟨_, rfl, by decide⟩
  | number text =>
    obtain ⟨c, rest, htext, hc⟩ := hv.1
    refine ⟨c, by rw [render, htext]; rfl, ?_⟩
    rintro rfl
    exact absurd hc (by decide)
  | string s => exact ⟨'"', rfl, by decide⟩
  | array items => exact ⟨'[', by simp [render], by decide⟩
  | object members => exact ⟨'\x7b', by simp [render], by decide⟩

mutual

theorem render_append_inj : ∀ {v w : Json} {r r' : List Char}, Numerals v → Numerals w →
    Delimited r → Delimited r' → render v ++ r = render w ++ r' → v = w ∧ r = r'
  | .null, w, r, r', _, hw, _, _, h => by
    cases w with
    | null => exact ⟨rfl, by simpa [render] using h⟩
    | bool b => cases b <;> simp [render] at h
    | number text => exact (hw.append_ne _ _ (by decide) h.symm).elim
    | string s => simp [render, quote] at h
    | array items => simp [render] at h
    | object members => simp [render] at h
  | .bool b, w, r, r', _, hw, _, _, h => by
    cases w with
    | null => cases b <;> simp [render] at h
    | bool b' => cases b <;> cases b' <;> simp [render] at h <;> exact ⟨rfl, h⟩
    | number text => cases b <;> exact (hw.append_ne _ _ (by decide) h.symm).elim
    | string s => cases b <;> simp [render, quote] at h
    | array items => cases b <;> simp [render] at h
    | object members => cases b <;> simp [render] at h
  | .number text, w, r, r', hv, hw, hr, hr', h => by
    cases w with
    | number text' =>
      obtain ⟨rfl, hrest⟩ := numeral_append_inj hv hw hr hr' h
      exact ⟨rfl, hrest⟩
    | null => exact (hv.append_ne _ _ (by decide) h).elim
    | bool b => cases b <;> exact (hv.append_ne _ _ (by decide) h).elim
    | string s => exact (hv.append_ne _ _ (by decide) h).elim
    | array items => exact (hv.append_ne _ _ (by decide) h).elim
    | object members => exact (hv.append_ne _ _ (by decide) h).elim
  | .string s, w, r, r', _, hw, _, _, h => by
    cases w with
    | string s' =>
      obtain ⟨rfl, hr⟩ := quote_append_inj (by simpa [render] using h)
      exact ⟨rfl, hr⟩
    | null => simp [render, quote] at h
    | bool b => cases b <;> simp [render, quote] at h
    | number text => exact (hw.append_ne _ _ (by decide) h.symm).elim
    | array items => simp [render, quote] at h
    | object members => simp [render, quote] at h
  | .array items, w, r, r', hv, hw, _, _, h => by
    cases w with
    | array items' =>
      obtain ⟨rfl, hr⟩ := renderItems_append_inj hv hw (by simpa [render] using h)
      exact ⟨rfl, hr⟩
    | null => simp [render] at h
    | bool b => cases b <;> simp [render] at h
    | number text => exact (hw.append_ne _ _ (by decide) h.symm).elim
    | string s => simp [render, quote] at h
    | object members => simp [render] at h
  | .object members, w, r, r', hv, hw, _, _, h => by
    cases w with
    | object members' =>
      obtain ⟨rfl, hr⟩ := renderMembers_append_inj hv hw (by simpa [render] using h)
      exact ⟨rfl, hr⟩
    | null => simp [render] at h
    | bool b => cases b <;> simp [render] at h
    | number text => exact (hw.append_ne _ _ (by decide) h.symm).elim
    | string s => simp [render, quote] at h
    | array items => simp [render] at h

theorem renderItems_append_inj : ∀ {vs ws : List Json} {r r' : List Char},
    NumeralsItems vs → NumeralsItems ws →
      renderItems vs ++ ']' :: r = renderItems ws ++ ']' :: r' → vs = ws ∧ r = r'
  | [], [], _, _, _, _, h => ⟨rfl, by simpa [renderItems] using h⟩
  | [], w :: ws, _, r', _, hw, h => by
    exfalso
    cases ws with
    | nil =>
      obtain ⟨c, hc, hne⟩ := render_head hw.1 (']' :: r')
      rw [renderItems, renderItems] at h
      rw [← h] at hc
      exact hne (by simpa using hc.symm)
    | cons w' ws =>
      obtain ⟨c, hc, hne⟩ := render_head hw.1 (',' :: (renderItems (w' :: ws) ++ ']' :: r'))
      rw [renderItems, renderItems, List.append_assoc, List.cons_append] at h
      rw [← h] at hc
      exact hne (by simpa using hc.symm)
  | v :: vs, [], r, _, hv, _, h => by
    exfalso
    cases vs with
    | nil =>
      obtain ⟨c, hc, hne⟩ := render_head hv.1 (']' :: r)
      rw [renderItems, renderItems] at h
      rw [h] at hc
      exact hne (by simpa using hc.symm)
    | cons v' vs =>
      obtain ⟨c, hc, hne⟩ := render_head hv.1 (',' :: (renderItems (v' :: vs) ++ ']' :: r))
      rw [renderItems, renderItems, List.append_assoc, List.cons_append] at h
      rw [h] at hc
      exact hne (by simpa using hc.symm)
  | v :: vs, w :: ws, r, r', hv, hw, h => by
    cases vs with
    | nil =>
      cases ws with
      | nil =>
        obtain ⟨rfl, hr⟩ := render_append_inj hv.1 hw.1 (delimited_cons rfl _)
          (delimited_cons rfl _)
          (by simpa only [renderItems] using h)
        exact ⟨rfl, by simpa using hr⟩
      | cons w' ws =>
        have htext : render v ++ ']' :: r =
            render w ++ ',' :: (renderItems (w' :: ws) ++ ']' :: r') := by
          simpa only [renderItems, List.append_assoc, List.cons_append] using h
        simpa using (render_append_inj hv.1 hw.1 (delimited_cons rfl _) (delimited_cons rfl _)
          htext).2
    | cons v' vs =>
      cases ws with
      | nil =>
        have htext : render v ++ ',' :: (renderItems (v' :: vs) ++ ']' :: r) =
            render w ++ ']' :: r' := by
          simpa only [renderItems, List.append_assoc, List.cons_append] using h
        simpa using (render_append_inj hv.1 hw.1 (delimited_cons rfl _) (delimited_cons rfl _)
          htext).2
      | cons w' ws =>
        have htext : render v ++ ',' :: (renderItems (v' :: vs) ++ ']' :: r) =
            render w ++ ',' :: (renderItems (w' :: ws) ++ ']' :: r') := by
          simpa only [renderItems, List.append_assoc, List.cons_append] using h
        obtain ⟨rfl, htail⟩ :=
          render_append_inj hv.1 hw.1 (delimited_cons rfl _) (delimited_cons rfl _) htext
        obtain ⟨hvs, hr⟩ := renderItems_append_inj hv.2 hw.2 (List.cons.inj htail).2
        exact ⟨by rw [hvs], hr⟩

theorem renderMembers_append_inj : ∀ {ms ns : List (String × Json)} {r r' : List Char},
    NumeralsMembers ms → NumeralsMembers ns →
      renderMembers ms ++ '\x7d' :: r = renderMembers ns ++ '\x7d' :: r' → ms = ns ∧ r = r'
  | [], [], _, _, _, _, h => ⟨rfl, by simpa [renderMembers] using h⟩
  | [], (l, w) :: ns, _, _, _, _, h => by
    cases ns <;> simp [renderMembers, quote] at h
  | (k, v) :: ms, [], _, _, _, _, h => by
    cases ms <;> simp [renderMembers, quote] at h
  | (k, v) :: ms, (l, w) :: ns, r, r', hv, hw, h => by
    cases ms with
    | nil =>
      cases ns with
      | nil =>
        have htext : quote k ++ ':' :: (render v ++ '\x7d' :: r) =
            quote l ++ ':' :: (render w ++ '\x7d' :: r') := by simpa [renderMembers] using h
        obtain ⟨rfl, hval⟩ := quote_append_inj htext
        obtain ⟨rfl, hr⟩ :=
          render_append_inj hv.1 hw.1 (delimited_cons rfl _) (delimited_cons rfl _)
            (List.cons.inj hval).2
        exact ⟨rfl, by simpa using hr⟩
      | cons n ns =>
        have htext : quote k ++ ':' :: (render v ++ '\x7d' :: r) =
            quote l ++ ':' :: (render w ++ ',' :: (renderMembers (n :: ns) ++ '\x7d' :: r')) := by
          simpa [renderMembers] using h
        obtain ⟨rfl, hval⟩ := quote_append_inj htext
        simpa using (render_append_inj hv.1 hw.1 (delimited_cons rfl _) (delimited_cons rfl _)
          (List.cons.inj hval).2).2
    | cons m ms =>
      cases ns with
      | nil =>
        have htext : quote k ++ ':' :: (render v ++ ',' :: (renderMembers (m :: ms) ++
            '\x7d' :: r)) = quote l ++ ':' :: (render w ++ '\x7d' :: r') := by
          simpa [renderMembers] using h
        obtain ⟨rfl, hval⟩ := quote_append_inj htext
        simpa using (render_append_inj hv.1 hw.1 (delimited_cons rfl _) (delimited_cons rfl _)
          (List.cons.inj hval).2).2
      | cons n ns =>
        have htext : quote k ++ ':' :: (render v ++ ',' :: (renderMembers (m :: ms) ++
            '\x7d' :: r)) =
            quote l ++ ':' :: (render w ++ ',' :: (renderMembers (n :: ns) ++ '\x7d' :: r')) := by
          simpa [renderMembers] using h
        obtain ⟨rfl, hval⟩ := quote_append_inj htext
        obtain ⟨rfl, htail⟩ :=
          render_append_inj hv.1 hw.1 (delimited_cons rfl _) (delimited_cons rfl _)
            (List.cons.inj hval).2
        obtain ⟨hms, hr⟩ := renderMembers_append_inj hv.2 hw.2 (List.cons.inj htail).2
        exact ⟨by rw [hms], hr⟩

end

theorem stringify_inj {v w : Json} (hv : Numerals v) (hw : Numerals w)
    (h : stringify v = stringify w) : v = w :=
  (render_append_inj hv hw delimited_nil delimited_nil
    (congrArg (· ++ []) (String.ofList_inj.mp h))).1

example : stringify (.object [("a", .array [.null, .bool true]), ("b", .string "x\"y")]) =
    "\x7b\"a\":[null,true],\"b\":\"x\\\"y\"\x7d" := by decide

end Library.JsonText
