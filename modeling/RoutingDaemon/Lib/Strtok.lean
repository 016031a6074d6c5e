import Mathlib.Data.List.TakeWhile
import Mathlib.Tactic

/-!
# Splitting a string in place

* `strtok`: one call of the tokenizer that overwrites the separator after a token with the end
  marker, on the memory from the saved pointer on.
* `Tokenized`: the three things a call can do; `strtok_eq_some_iff`: it does nothing else.
* `words`: the words of a string; `strtok_words`: a call yields the first one and leaves the others.
* `count_strtok`: a token that another one follows uses up a separator.
-/

namespace RoutingDaemon

section Strtok

variable {α : Type*}

/-- What a call leaves behind: the memory it passed, the memory from the saved pointer on, and the
token. -/
structure TokenCall (α : Type*) where
  passed : List α
  rest : List α
  token : Option (List α)

variable [DecidableEq α] (sep nul : α)

/-- A byte between tokens. -/
def isSep (b : α) : Bool := b = sep

/-- A byte of a token. -/
def isTokenByte (b : α) : Bool := b ≠ sep ∧ b ≠ nul

/-- One call; `none` when it runs past the end of the memory. -/
def strtok (mem : List α) : Option (TokenCall α) :=
  let spaces := mem.takeWhile (isSep sep)
  let start := mem.dropWhile (isSep sep)
  let word := start.takeWhile (isTokenByte sep nul)
  match start.dropWhile (isTokenByte sep nul) with
  | [] => none
  | b :: rest =>
    if word = [] then some ⟨spaces, b :: rest, none⟩
    else if b = nul then some ⟨spaces ++ word, b :: rest, some word⟩
    else some ⟨spaces ++ word ++ [nul], rest, some word⟩

/-- A nonempty string without separators. -/
structure IsWord (word : List α) : Prop where
  ne_nil : word ≠ []
  sep : sep ∉ word
  nul : nul ∉ word

/-- What a call does: it finds no token, a token at the end of the string, or one before a
separator. -/
inductive Tokenized : List α → TokenCall α → Prop
  | none (k : ℕ) (rest : List α) :
      Tokenized (.replicate k sep ++ nul :: rest) ⟨.replicate k sep, nul :: rest, none⟩
  | last (k : ℕ) {word : List α} (hw : IsWord sep nul word) (rest : List α) :
      Tokenized (.replicate k sep ++ (word ++ nul :: rest))
        ⟨.replicate k sep ++ word, nul :: rest, some word⟩
  | word (k : ℕ) {word : List α} (hw : IsWord sep nul word) (rest : List α) :
      Tokenized (.replicate k sep ++ (word ++ sep :: rest))
        ⟨.replicate k sep ++ word ++ [nul], rest, some word⟩

variable {sep nul}

theorem isSep_iff {b : α} : isSep sep b = true ↔ b = sep := decide_eq_true_iff

theorem isTokenByte_iff {b : α} : isTokenByte sep nul b = true ↔ b ≠ sep ∧ b ≠ nul :=
  decide_eq_true_iff

theorem isWord_iff {word : List α} :
    IsWord sep nul word ↔ word ≠ [] ∧ ∀ b ∈ word, isTokenByte sep nul b = true := by
  constructor
  · intro h
    exact ⟨h.ne_nil, fun b hb =>
      isTokenByte_iff.mpr ⟨fun e => h.sep (e ▸ hb), fun e => h.nul (e ▸ hb)⟩⟩
  · rintro ⟨hne, h⟩
    exact ⟨hne, fun hm => (isTokenByte_iff.mp (h _ hm)).1 rfl,
      fun hm => (isTokenByte_iff.mp (h _ hm)).2 rfl⟩

theorem strtok_append (k : ℕ) {word : List α} (hw : ∀ b ∈ word, isTokenByte sep nul b = true) {b : α}
    (hb : isTokenByte sep nul b = false) (hk : word = [] → b ≠ sep) (rest : List α) :
    strtok sep nul (.replicate k sep ++ (word ++ b :: rest)) =
      if word = [] then some ⟨.replicate k sep, b :: rest, none⟩
      else if b = nul then some ⟨.replicate k sep ++ word, b :: rest, some word⟩
      else some ⟨.replicate k sep ++ word ++ [nul], rest, some word⟩ := by
  have hpos : ∀ a ∈ List.replicate k sep, isSep sep a = true := fun a ha =>
    isSep_iff.mpr (List.eq_of_mem_replicate ha)
  have hstart : ∃ a l, word ++ b :: rest = a :: l ∧ ¬ isSep sep a = true := by
    cases word with
    | nil => exact ⟨b, rest, rfl, fun e => hk rfl (isSep_iff.mp e)⟩
    | cons a word =>
      exact ⟨a, _, rfl, fun e => (isTokenByte_iff.mp (hw a List.mem_cons_self)).1 (isSep_iff.mp e)⟩
  obtain ⟨a, l, he, ha⟩ := hstart
  have hspaces : (List.replicate k sep ++ (word ++ b :: rest)).takeWhile (isSep sep) =
      List.replicate k sep := by
    rw [List.takeWhile_append_of_pos hpos, he, List.takeWhile_cons_of_neg ha, List.append_nil]
  have hrest : (List.replicate k sep ++ (word ++ b :: rest)).dropWhile (isSep sep) =
      word ++ b :: rest := by
    rw [List.dropWhile_append_of_pos hpos, he, List.dropWhile_cons_of_neg ha]
  have hword : (word ++ b :: rest).takeWhile (isTokenByte sep nul) = word := by
    rw [List.takeWhile_append_of_pos hw, List.takeWhile_cons_of_neg (by simp [hb]), List.append_nil]
  have hend : (word ++ b :: rest).dropWhile (isTokenByte sep nul) = b :: rest := by
    rw [List.dropWhile_append_of_pos hw, List.dropWhile_cons_of_neg (by simp [hb])]
  simp only [strtok, hspaces, hrest, hword, hend]

theorem exists_append {mem : List α} {c : TokenCall α} (h : strtok sep nul mem = some c) :
    ∃ k word b rest, mem = .replicate k sep ++ (word ++ b :: rest) ∧
      (∀ b ∈ word, isTokenByte sep nul b = true) ∧ isTokenByte sep nul b = false ∧
        (word = [] → b ≠ sep) := by
  have hsplit := List.takeWhile_append_dropWhile (p := isSep sep) (l := mem)
  have hsplit' := List.takeWhile_append_dropWhile (p := isTokenByte sep nul)
    (l := mem.dropWhile (isSep sep))
  have hsep : mem.takeWhile (isSep sep) = .replicate (mem.takeWhile (isSep sep)).length sep :=
    List.eq_replicate_iff.mpr ⟨rfl, fun b hb => isSep_iff.mp (List.mem_takeWhile_imp hb)⟩
  cases hend : (mem.dropWhile (isSep sep)).dropWhile (isTokenByte sep nul) with
  | nil => simp [strtok, hend] at h
  | cons b rest =>
    rw [hend] at hsplit'
    have hb := List.head?_dropWhile_not (isTokenByte sep nul) (mem.dropWhile (isSep sep))
    have hstart := List.head?_dropWhile_not (isSep sep) mem
    rw [hend] at hb
    refine ⟨(mem.takeWhile (isSep sep)).length,
      (mem.dropWhile (isSep sep)).takeWhile (isTokenByte sep nul), b, rest, ?_,
      fun _ hb => List.mem_takeWhile_imp hb, by simpa using hb, fun e he => ?_⟩
    · rw [hsplit', ← hsep, hsplit]
    · rw [e, List.nil_append] at hsplit'
      rw [← hsplit', he] at hstart
      simp [isSep] at hstart

/-- **A call does one of three things.** -/
theorem strtok_eq_some_iff (hne : sep ≠ nul) {mem : List α} {c : TokenCall α} :
    strtok sep nul mem = some c ↔ Tokenized sep nul mem c := by
  constructor
  · intro h
    obtain ⟨k, word, b, rest, rfl, hw, hb, hk⟩ := exists_append h
    rw [strtok_append k hw hb hk rest] at h
    have hend : b ≠ nul → b = sep := fun e => by
      by_contra hs
      rw [isTokenByte_iff.mpr ⟨hs, e⟩] at hb
      cases hb
    split_ifs at h with h1 h2
    · cases h
      obtain rfl : b = nul := by_contra fun e => hk h1 (hend e)
      subst h1
      exact .none k rest
    · cases h
      subst h2
      exact .last k (isWord_iff.mpr ⟨h1, hw⟩) rest
    · cases h
      rw [hend h2]
      exact .word k (isWord_iff.mpr ⟨h1, hw⟩) rest
  · intro h
    cases h with
    | none k rest =>
      have hnul : isTokenByte sep nul nul = false := by simp [isTokenByte]
      have hcall := strtok_append k (List.forall_mem_nil _) hnul (fun _ => hne.symm) rest
      rwa [if_pos rfl, List.nil_append] at hcall
    | last k hw rest =>
      rw [strtok_append k (isWord_iff.mp hw).2 (by simp [isTokenByte]) (fun e => absurd e hw.ne_nil),
        if_neg hw.ne_nil, if_pos rfl]
    | word k hw rest =>
      rw [strtok_append k (isWord_iff.mp hw).2 (by simp [isTokenByte]) (fun e => absurd e hw.ne_nil),
        if_neg hw.ne_nil, if_neg hne]

/-! ### Rules -/

theorem strtok_word (hne : sep ≠ nul) {word : List α} (hw : IsWord sep nul word) (rest : List α) :
    strtok sep nul (word ++ sep :: rest) = some ⟨word ++ [nul], rest, some word⟩ :=
  (strtok_eq_some_iff hne).mpr (.word 0 hw rest)

theorem strtok_last (hne : sep ≠ nul) {word : List α} (hw : IsWord sep nul word) (rest : List α) :
    strtok sep nul (word ++ nul :: rest) = some ⟨word, nul :: rest, some word⟩ :=
  (strtok_eq_some_iff hne).mpr (.last 0 hw rest)

theorem strtok_nul (hne : sep ≠ nul) (rest : List α) :
    strtok sep nul (nul :: rest) = some ⟨[], nul :: rest, none⟩ :=
  (strtok_eq_some_iff hne).mpr (.none 0 rest)

theorem isWord_token (hne : sep ≠ nul) {mem word : List α} {c : TokenCall α}
    (h : strtok sep nul mem = some c) (ht : c.token = some word) : IsWord sep nul word := by
  rw [strtok_eq_some_iff hne] at h
  cases h with
  | none k rest => cases ht
  | last k hw rest => cases ht; exact hw
  | word k hw rest => cases ht; exact hw

theorem length_strtok (hne : sep ≠ nul) {mem : List α} {c : TokenCall α}
    (h : strtok sep nul mem = some c) : c.passed.length + c.rest.length = mem.length := by
  rw [strtok_eq_some_iff hne] at h
  cases h with
  | none k rest => simp
  | last k hw rest => simp; omega
  | word k hw rest => simp; omega

theorem length_token (hne : sep ≠ nul) {mem word : List α} {c : TokenCall α}
    (h : strtok sep nul mem = some c) (ht : c.token = some word) : word.length < mem.length := by
  rw [strtok_eq_some_iff hne] at h
  cases h with
  | none k rest => cases ht
  | last k hw rest => cases ht; simp; omega
  | word k hw rest => cases ht; simp; omega

theorem length_token_le (hne : sep ≠ nul) {mem word : List α} {c : TokenCall α}
    (h : strtok sep nul mem = some c) (ht : c.token = some word) : word.length ≤ c.passed.length := by
  rw [strtok_eq_some_iff hne] at h
  cases h with
  | none k rest => cases ht
  | last k hw rest => cases ht; simp
  | word k hw rest => cases ht; simp; omega

/-- A call writes end markers only. -/
theorem getElem?_strtok (hne : sep ≠ nul) {mem : List α} {c : TokenCall α}
    (h : strtok sep nul mem = some c) {i : ℕ} (hi : mem[i]? = some nul) :
    (c.passed ++ c.rest)[i]? = some nul := by
  rw [strtok_eq_some_iff hne] at h
  cases h with
  | none k rest => exact hi
  | last k hw rest => rwa [List.append_assoc]
  | @word k word hw rest =>
    have hset : List.replicate k sep ++ word ++ [nul] ++ rest =
        (List.replicate k sep ++ (word ++ sep :: rest)).set (k + word.length) nul := by
      simp
    rw [hset, List.getElem?_set]
    split_ifs with hk
    · rfl
    · simp at *
    · exact hi

theorem count_strtok_le (hne : sep ≠ nul) {mem : List α} {c : TokenCall α}
    (h : strtok sep nul mem = some c) : c.passed.count sep + c.rest.count sep ≤ mem.count sep := by
  rw [strtok_eq_some_iff hne] at h
  cases h with
  | none k rest => simp [hne.symm]
  | last k hw rest => simp [hne.symm]; omega
  | word k hw rest => simp [hne.symm]; omega

/-- **A token that another one follows uses up a separator.** -/
theorem count_strtok (hne : sep ≠ nul) {mem : List α} {c c' : TokenCall α}
    (h : strtok sep nul mem = some c) (ht : c.token ≠ none) (h' : strtok sep nul c.rest = some c')
    (ht' : c'.token ≠ none) : c.passed.count sep + c.rest.count sep + 1 = mem.count sep := by
  rw [strtok_eq_some_iff hne] at h
  cases h with
  | none k rest => exact absurd rfl ht
  | last k hw rest =>
    rw [strtok_nul hne] at h'
    cases h'
    exact absurd rfl ht'
  | word k hw rest => simp [hne.symm]; omega

/-! ### Words -/

variable (sep) in
/-- The words of a string. -/
def words (s : List α) : List (List α) := (s.splitOn sep).filter (· ≠ [])

theorem words_nil : words sep ([] : List α) = [] := by simp [words]

theorem words_append_sep (s t : List α) : words sep (s ++ sep :: t) = words sep s ++ words sep t := by
  rw [words, List.splitOn_eq_splitOnP, List.splitOnP_append_cons s t (by simp), List.filter_append]
  rfl

theorem words_replicate_append (k : ℕ) (s : List α) :
    words sep (List.replicate k sep ++ s) = words sep s := by
  induction k with
  | zero => rfl
  | succ k ih =>
    have h : words sep ([] ++ sep :: (List.replicate k sep ++ s)) =
        words sep [] ++ words sep (List.replicate k sep ++ s) := words_append_sep _ _
    rw [words_nil, List.nil_append, List.nil_append, ih] at h
    exact h

theorem words_of_isWord {word : List α} (hw : IsWord sep nul word) : words sep word = [word] := by
  have hsep : ∀ b ∈ word, (b == sep) = false := fun b hb => by
    simpa using fun e : b = sep => hw.sep (e ▸ hb)
  rw [words, List.splitOn_eq_splitOnP, List.splitOnP_eq_singleton hsep]
  simp [hw.ne_nil]

/-- **A call yields the first word of a string and leaves the others.** -/
theorem strtok_words (hne : sep ≠ nul) {s : List α} (hs : nul ∉ s) (rest : List α) :
    ∃ c s', strtok sep nul (s ++ nul :: rest) = some c ∧ c.rest = s' ++ nul :: rest ∧ nul ∉ s' ∧
      c.token = (words sep s).head? ∧ words sep s' = (words sep s).tail := by
  have hsep : s.takeWhile (isSep sep) = .replicate (s.takeWhile (isSep sep)).length sep :=
    List.eq_replicate_iff.mpr ⟨rfl, fun b hb => isSep_iff.mp (List.mem_takeWhile_imp hb)⟩
  obtain ⟨k, t, rfl, ht⟩ : ∃ k t, s = .replicate k sep ++ t ∧ ∀ b ∈ t.head?, b ≠ sep := by
    refine ⟨(s.takeWhile (isSep sep)).length, s.dropWhile (isSep sep), ?_, fun b hb e => ?_⟩
    · rw [← hsep, List.takeWhile_append_dropWhile]
    · have h := List.head?_dropWhile_not (isSep sep) s
      rw [Option.mem_def.mp hb] at h
      simp [isSep, e] at h
  have hnul : nul ∉ t := fun h => hs (List.mem_append_right _ h)
  rw [words_replicate_append, List.append_assoc]
  have hsplit := List.takeWhile_append_dropWhile (p := isTokenByte sep nul) (l := t)
  have hword : ∀ b ∈ t.takeWhile (isTokenByte sep nul), isTokenByte sep nul b = true :=
    fun b hb => List.mem_takeWhile_imp hb
  have hrest := List.head?_dropWhile_not (isTokenByte sep nul) t
  generalize t.takeWhile (isTokenByte sep nul) = word at hsplit hword
  generalize t.dropWhile (isTokenByte sep nul) = u at hsplit hrest
  subst hsplit
  cases u with
  | nil =>
    rw [List.append_nil]
    by_cases he : word = []
    · subst he
      rw [words_nil]
      exact ⟨_, [], (strtok_eq_some_iff hne).mpr (.none k rest), rfl, List.not_mem_nil, rfl, words_nil⟩
    · have hw := isWord_iff.mpr ⟨he, hword⟩
      rw [words_of_isWord hw]
      exact ⟨_, [], (strtok_eq_some_iff hne).mpr (.last k hw rest), rfl, List.not_mem_nil, rfl,
        words_nil⟩
  | cons b u =>
    -- what ends the word is a separator, since the string holds no end marker
    have hb : b = sep := by
      by_contra h
      have hb : isTokenByte sep nul b = true :=
        isTokenByte_iff.mpr ⟨h, fun e => hnul (by simp [e])⟩
      simp [hb] at hrest
    subst hb
    have he : word ≠ [] := fun e => ht b (by simp [e]) rfl
    have hw := isWord_iff.mpr ⟨he, hword⟩
    rw [words_append_sep, words_of_isWord hw, List.append_assoc]
    exact ⟨_, u, (strtok_eq_some_iff hne).mpr (.word k hw (u ++ nul :: rest)), rfl,
      fun h => hnul (by simp [h]), rfl, rfl⟩

end Strtok

end RoutingDaemon
