import ProcLisp.Proofs.Reader.Items

/-!
# Where reading stops

A reader that succeeds has gone on, and one that fails points at what is wrong: at a token that the
text really has there, or at its end. `Cut` tells the places where tokens begin from all others,
`Blames` which of them a fault may point at.
-/

namespace ProcLisp.Reader

/-- The tokens before a place of a text, and what is left there. -/
inductive Cut : Bytes → List Token → Bytes → Prop
  | here (s : Bytes) : Cut s [] (skip s)
  | opening {s t there : Bytes} {ts : List Token} (begins : skip s = openParen :: t)
      (later : Cut t ts there) : Cut s (.opening :: ts) there
  | closing {s t there : Bytes} {ts : List Token} (begins : skip s = closeParen :: t)
      (later : Cut t ts there) : Cut s (.closing :: ts) there
  | quote {s t there : Bytes} {ts : List Token} (begins : skip s = quoteMark :: t)
      (later : Cut t ts there) : Cut s (.quote :: ts) there
  | text {s t there : Bytes} {cut : Bytes × Bytes} {ts : List Token}
      (begins : skip s = Quoted.quoteMark :: t) (closes : literal t = .ok cut)
      (later : Cut cut.2 ts there) : Cut s (.text cut.1 :: ts) there
  | atom {s t there : Bytes} {c : UInt8} {ts : List Token} (begins : skip s = c :: t)
      (other : c ∉ marks) (later : Cut (afterWord (c :: t)) ts there) :
      Cut s (.atom (word (c :: t)) :: ts) there

/-- An item has to come next: it is the first one, or it is quoted. -/
def Wanted (before : List Token) : Prop := before = [] ∨ ∃ ts, before = ts ++ [.quote]

/-- What a fault says of a text, and what is left where it points. -/
inductive Blames (s : Bytes) : Fault → Bytes → Prop
  /-- The text after the parenthesis is read to its end, so every list that is opened there is closed
  there, and nothing closes this one. -/
  | list {before : List Token} {after : Bytes} {vs : List Value}
      (cut : Cut s before (openParen :: after)) (closed : parse after = .ok vs) :
      Blames s .unclosedList (openParen :: after)
  | text {before : List Token} {after : Bytes} {dangling : Bool}
      (cut : Cut s before (Quoted.quoteMark :: after)) (opens : literal after = .error dangling) :
      Blames s (.unclosedString dangling) (Quoted.quoteMark :: after)
  | stray {before : List Token} {after : Bytes} (cut : Cut s before (closeParen :: after))
      (wanted : Wanted before) : Blames s .strayClose (closeParen :: after)
  | nothing {before : List Token} (cut : Cut s before []) (wanted : Wanted before) :
      Blames s .endOfInput []

variable {s t rest there : Bytes} {ts us : List Token} {c : UInt8} {v : Value} {vs : List Value}
  {e : Stuck} {fault : Fault}

theorem Cut.begins (begins : skip s = there) : Cut s [] there := begins ▸ .here s

/-! ### Places are in the text -/

theorem skip_suffix (s : Bytes) : skip s <:+ s := by
  fun_induction skip s with
  | case1 => exact List.suffix_rfl
  | case2 c s blank ih => exact ih.trans (List.suffix_cons c s)
  | case3 s notBlank ih => exact (ih.trans (List.dropWhile_suffix _)).trans (List.suffix_cons _ s)
  | case4 => exact List.suffix_rfl

theorem suffix_of_skip (begins : skip s = c :: t) : t <:+ s :=
  (List.suffix_cons c t).trans (begins ▸ skip_suffix s)

theorem literal_suffix {cut : Bytes × Bytes} (closes : literal s = .ok cut) : cut.2 <:+ s := by
  fun_induction literal s generalizing cut with
  | case1 => cases closes
  | case2 s =>
    obtain rfl := Except.ok.inj closes
    exact List.suffix_cons _ s
  | case3 => cases closes
  | case4 d s _ ih =>
    obtain ⟨later, ends, rfl⟩ := exists_of_map_ok closes
    exact ((ih ends).trans (List.suffix_cons d s)).trans (List.suffix_cons _ _)
  | case5 c s _ _ ih =>
    obtain ⟨later, ends, rfl⟩ := exists_of_map_ok closes
    exact (ih ends).trans (List.suffix_cons c s)

theorem Cut.suffix (cut : Cut s ts there) : there <:+ s := by
  induction cut with
  | here s => exact skip_suffix s
  | opening begins _ ih => exact ih.trans (suffix_of_skip begins)
  | closing begins _ ih => exact ih.trans (suffix_of_skip begins)
  | quote begins _ ih => exact ih.trans (suffix_of_skip begins)
  | text begins closes _ ih =>
    exact (ih.trans (literal_suffix closes)).trans (suffix_of_skip begins)
  | @atom s t _ c _ begins _ _ ih =>
    have whole : c :: t <:+ s := begins ▸ skip_suffix s
    exact (ih.trans (List.dropWhile_suffix _)).trans whole

theorem lex_text {cut : Bytes × Bytes} (closes : literal t = .ok cut) :
    lex (Quoted.quoteMark :: t) = (lex cut.2).cons (.text cut.1) := by
  rw [lex, if_neg (by decide), if_neg (by decide), if_neg (by decide), if_neg (by decide),
    if_neg (by decide), if_pos rfl]
  split <;> rename_i ends <;> rw [closes] at ends <;> cases ends
  rfl

theorem lex_word (begins : skip s = c :: t) (other : c ∉ marks) :
    lex (c :: t) = (lex (afterWord (c :: t))).cons (.atom (word (c :: t))) := by
  obtain ⟨notBlank, notComment⟩ := not_blank_of_skip begins
  obtain ⟨same, after⟩ := word_of_skip begins other
  simp only [marks, List.mem_cons, List.not_mem_nil, or_false, not_or] at other
  obtain ⟨notOpen, notClose, notQuote, notString⟩ := other
  rw [same, after, lex, if_neg (by simp [notBlank]), if_neg notComment, if_neg notOpen,
    if_neg notClose, if_neg notQuote, if_neg notString]
  rfl

/-- The tokens before a place and those after it are the tokens of the text. -/
theorem Cut.tokens_lex (cut : Cut s ts there) : (lex s).tokens = ts ++ (lex there).tokens := by
  induction cut with
  | here s => rw [lex_skip, List.nil_append]
  | opening begins _ ih | closing begins _ ih | quote begins _ ih =>
    rw [← lex_skip, begins, List.cons_append, ← ih, lex]
    rfl
  | text begins closes _ ih =>
    rw [← lex_skip, begins, List.cons_append, ← ih, lex_text closes]
    rfl
  | atom begins other _ ih =>
    rw [← lex_skip, begins, List.cons_append, ← ih, lex_word begins other]
    rfl

/-- A fault points at the beginning of a token, or at the end. -/
theorem Blames.cut (blames : Blames s fault there) : ∃ before, Cut s before there := by
  cases blames with
  | list cut _ => exact ⟨_, cut⟩
  | text cut _ => exact ⟨_, cut⟩
  | stray cut _ => exact ⟨_, cut⟩
  | nothing cut _ => exact ⟨_, cut⟩

theorem Blames.suffix (blames : Blames s fault there) : there <:+ s := by
  obtain ⟨before, cut⟩ := blames.cut
  exact cut.suffix

theorem Blames.tokens_lex (blames : Blames s fault there) :
    ∃ before, (lex s).tokens = before ++ (lex there).tokens := by
  obtain ⟨before, cut⟩ := blames.cut
  exact ⟨before, cut.tokens_lex⟩

/-! ### Faults after what is read -/

/-- The tokens `ts` lead from the beginning of `s` to that of `rest`. -/
def Passes (s : Bytes) (ts : List Token) (rest : Bytes) : Prop :=
  ∀ us there, Cut rest us there → Cut s (ts ++ us) there

mutual

theorem Reads.passes {s rest : Bytes} {v : Value} (reads : Reads s v rest) :
    ∃ ts, Passes s ts rest := by
  match reads with
  | .list begins items =>
    obtain ⟨ts, passes⟩ := items.passes
    exact ⟨.opening :: ts, fun us there cut => .opening begins (passes us there cut)⟩
  | .quote begins item =>
    obtain ⟨ts, passes⟩ := item.passes
    exact ⟨.quote :: ts, fun us there cut => .quote begins (passes us there cut)⟩
  | .text begins closes => exact ⟨[.text _], fun us there cut => .text begins closes cut⟩
  | .atom begins other => exact ⟨[.atom _], fun us there cut => .atom begins other cut⟩

theorem ReadsItems.passes {s rest : Bytes} {vs : List Value} (items : ReadsItems s vs rest) :
    ∃ ts, Passes s ts rest := by
  match items with
  | .nil closes => exact ⟨[.closing], fun us there cut => .closing closes cut⟩
  | .cons first later =>
    obtain ⟨ts, passes⟩ := first.passes
    obtain ⟨us, passes'⟩ := later.passes
    refine ⟨ts ++ us, fun ws there cut => ?_⟩
    rw [List.append_assoc]
    exact passes _ there (passes' ws there cut)

end

theorem Wanted.append (wanted : Wanted us) (before : Wanted ts) : Wanted (ts ++ us) := by
  rcases wanted with rfl | ⟨us, rfl⟩
  · rwa [List.append_nil]
  · exact .inr ⟨ts ++ us, (List.append_assoc _ _ _).symm⟩

theorem Wanted.filled (wanted : Wanted us) (cut : Cut rest us there) (goesOn : GoesOn rest)
    (ends : there = [] ∨ ∃ t, there = closeParen :: t) (ts : List Token) : Wanted (ts ++ us) := by
  rcases wanted with rfl | ⟨us, rfl⟩
  · -- an item begins there, so it is not what is blamed
    cases cut
    rcases ends with ends | ⟨t, closes⟩
    · exact absurd goesOn (not_goesOn_of_end ends)
    · exact absurd goesOn (not_goesOn_of_close closes)
  · exact .inr ⟨ts ++ us, (List.append_assoc _ _ _).symm⟩

/-- A fault of the rest of a text is one of the text. -/
theorem Blames.behind (blames : Blames rest fault there) (passes : Passes s ts rest)
    (ready : Wanted ts ∨ GoesOn rest) : Blames s fault there := by
  cases blames with
  | list cut closed => exact .list (passes _ _ cut) closed
  | text cut opens => exact .text (passes _ _ cut) opens
  | stray cut wanted =>
    refine .stray (passes _ _ cut) ?_
    rcases ready with before | goesOn
    · exact wanted.append before
    · exact wanted.filled cut goesOn (.inr ⟨_, rfl⟩) ts
  | nothing cut wanted =>
    refine .nothing (passes _ _ cut) ?_
    rcases ready with before | goesOn
    · exact wanted.append before
    · exact wanted.filled cut goesOn (.inl rfl) ts

mutual

/-- The place of a fault is one that it may point at. -/
theorem Fails.blames {s : Bytes} {e : Stuck} (fails : Fails s e) :
    ∃ there, e.left = there.length ∧ Blames s e.fault there := by
  match fails with
  | .nothing ends => exact ⟨[], rfl, .nothing (.begins ends) (.inl rfl)⟩
  | .stray begins => exact ⟨_, rfl, .stray (.begins begins) (.inl rfl)⟩
  | .list begins items =>
    rcases items.blames with ⟨rfl, vs, all⟩ | ⟨goesOn, there, left, blames⟩
    · exact ⟨_, rfl, .list (.begins begins) (parse_of_all all)⟩
    · have passes : Passes s [.opening] _ := fun us there cut => .opening begins cut
      exact ⟨there, left, blames.behind passes (.inr goesOn)⟩
  | .quote begins item =>
    obtain ⟨there, left, blames⟩ := item.blames
    have passes : Passes s [.quote] _ := fun us there cut => .quote begins cut
    exact ⟨there, left, blames.behind passes (.inl (.inr ⟨[], rfl⟩))⟩
  | .text begins opens => exact ⟨_, rfl, .text (.begins begins) opens⟩

/-- The list itself is at fault only if all that is left of the text are its items. -/
theorem FailsItems.blames {s : Bytes} {start : Nat} {e : Stuck} (fails : FailsItems s start e) :
    (e = ⟨.unclosedList, start⟩ ∧ ∃ vs, ReadsAll s vs) ∨
      (GoesOn s ∧ ∃ there, e.left = there.length ∧ Blames s e.fault there) := by
  match fails with
  | .unclosed ends => exact .inl ⟨rfl, [], .nil ends⟩
  | .item goesOn item => exact .inr ⟨goesOn, item.blames⟩
  | .later first later =>
    rcases later.blames with ⟨rfl, vs, all⟩ | ⟨goesOn, there, left, blames⟩
    · exact .inl ⟨rfl, _, .cons first all⟩
    · obtain ⟨ts, passes⟩ := first.passes
      exact .inr ⟨first.goesOn, there, left, blames.behind passes (.inr goesOn)⟩

end

/-- On every text and from every place of it the reader comes to an end. An item takes at least one
byte, and an atom has at least one. A fault is at or after the place where reading began, and it
points at an opening parenthesis with only complete items after it, at the opening quote of a string
without a closing one, or where an item has to come, at a closing parenthesis or the end. No token is
cut in two there. -/
theorem next_advances_or_blames {src : Bytes} {p : Nat} (inside : p ≤ src.length) :
    -- the descent ends on an item, on the items of a list and on a whole text
    (((∃ v rest, Reads (src.drop p) v rest) ∨ ∃ e, Fails (src.drop p) e) ∧
      (∀ start, (∃ vs rest, ReadsItems (src.drop p) vs rest) ∨
        ∃ e, FailsItems (src.drop p) start e) ∧
      ((∃ vs, ReadsAll src vs) ∨ ∃ e, FailsAll src e)) ∧
    -- and what it finds is what is returned
    ((∀ v rest, Reads (src.drop p) v rest → next src p = .ok (v, src.length - rest.length)) ∧
      (∀ e, Fails (src.drop p) e → next src p = .error ⟨src.length - e.left, e.fault⟩) ∧
      (∀ vs, ReadsAll src vs → parse src = .ok vs) ∧
      ∀ e, FailsAll src e → parse src = .error ⟨src.length - e.left, e.fault⟩) ∧
    (∀ v q, next src p = .ok (v, q) → p < q ∧ q ≤ src.length) ∧
    (∀ c t, skip (src.drop p) = c :: t → c ∉ marks → word (c :: t) ≠ [] ∧
      next src p = .ok (atomValue (word (c :: t)), src.length - (afterWord (c :: t)).length)) ∧
    ∀ e, next src p = .error e → p ≤ e.position ∧ e.position ≤ src.length ∧
      (e.fault = .endOfInput → e.position = src.length) ∧
      Blames (src.drop p) e.fault (src.drop e.position) ∧
      ∃ before, (lex (src.drop p)).tokens = before ++ (lex (src.drop e.position)).tokens := by
  have ends := descent_ends (src.drop p)
  refine ⟨⟨ends.1, ends.2.1, (descent_ends src).2.2⟩,
    ⟨fun v rest => next_of_reads inside, fun e => next_of_fails inside, fun vs => parse_of_all,
      fun e fails => (parse_of_faulty fails).2⟩, fun v q read => ?_, fun c t begins other => ?_,
    fun e failed => ?_⟩
  · rcases ends.1 with ⟨w, rest, reads⟩ | ⟨e, fails⟩
    · rw [next_of_reads inside reads] at read
      have shorter := reads.shorter
      have there := (Prod.mk.inj (Except.ok.inj read)).2
      rw [List.length_drop] at shorter
      omega
    · rw [next_of_fails inside fails] at read
      cases read
  · refine ⟨?_, next_of_reads inside (.atom begins other)⟩
    rw [(word_of_skip begins other).1]
    exact List.cons_ne_nil c _
  · rcases ends.1 with ⟨w, rest, reads⟩ | ⟨stuck, fails⟩
    · rw [next_of_reads inside reads] at failed
      cases failed
    · rw [next_of_fails inside fails] at failed
      obtain rfl := Except.error.inj failed
      obtain ⟨there, left, blames⟩ := fails.blames
      have suffix := blames.suffix
      have within := suffix.length_le
      rw [List.length_drop] at within
      have rest : src.drop (src.length - stuck.left) = there := by
        rw [left]
        exact (List.suffix_iff_eq_drop.mp (suffix.trans (List.drop_suffix p src))).symm
      refine ⟨by dsimp only; omega, Nat.sub_le _ _, fun ended => ?_, rest.symm ▸ blames,
        rest.symm ▸ blames.tokens_lex⟩
      dsimp only at ended ⊢
      rw [ended] at blames
      cases blames
      rw [left, List.length_nil, Nat.sub_zero]

/-- After a quote mark an item has to come; a comment is none. -/
theorem next_advances_or_blames_after_quote :
    let src := ascii "a (b ' ; c"
    (1 ≤ src.length ∧ next src 1 = .error ⟨10, .endOfInput⟩) ∧
      Blames (src.drop 1) .endOfInput (src.drop 10) := by
  intro src
  have inside : 1 ≤ src.length := by decide
  have failed : next src 1 = .error ⟨10, .endOfInput⟩ := by rfl
  exact ⟨⟨inside, failed⟩, ((next_advances_or_blames inside).2.2.2.2 _ failed).2.2.2.1⟩

end ProcLisp.Reader
