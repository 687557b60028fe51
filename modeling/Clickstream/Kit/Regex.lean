import Mathlib.Data.List.Basic

/-! Regular expressions with backtracking, over any alphabet.  A pattern runs from a cursor in a
text and yields every way to match, in the order in which a backtracking engine tries them, so the
first of them is the match that such an engine reports.  Repetition is of one-character classes,
and a zero-width test sees the text on both sides of the cursor. -/

namespace Clickstream.Kit

/-- A pattern over characters `σ`, with groups named by `ν`. -/
inductive Regex (σ ν : Type) where
  | empty
  | one (p : σ → Bool)
  | look (p : List σ → List σ → Bool)
  | seq (r s : Regex σ ν)
  | alt (r s : Regex σ ν)
  | star (p : σ → Bool)
  | group (name : ν) (r : Regex σ ν)

/-- A place in a text: the characters behind it, nearest first, those ahead, and the groups
captured on the way, latest first. -/
structure Cursor (σ ν : Type) where
  behind : List σ
  ahead : List σ
  groups : List (ν × List σ)

namespace Regex

variable {σ ν : Type}

/-- The cursors behind the characters of class `p` ahead of the cursor, farthest first. -/
def spanRun (p : σ → Bool) (groups : List (ν × List σ)) :
    List σ → List σ → List (Cursor σ ν)
  | behind, [] => [⟨behind, [], groups⟩]
  | behind, c :: rest =>
    if p c then spanRun p groups (c :: behind) rest ++ [⟨behind, c :: rest, groups⟩]
    else [⟨behind, c :: rest, groups⟩]

/-- Every match of a pattern from a cursor, in the order of backtracking. -/
def run : Regex σ ν → Cursor σ ν → List (Cursor σ ν)
  | .empty, c => [c]
  | .one p, ⟨behind, ahead, groups⟩ =>
    match ahead with
    | [] => []
    | x :: rest => if p x then [⟨x :: behind, rest, groups⟩] else []
  | .look p, c => if p c.behind c.ahead then [c] else []
  | .seq r s, c => (run r c).flatMap (run s)
  | .alt r s, c => run r c ++ run s c
  | .star p, c => spanRun p c.groups c.behind c.ahead
  | .group name r, c =>
    (run r c).map fun d =>
      { d with groups := (name, c.ahead.take (c.ahead.length - d.ahead.length)) :: d.groups }

def seqs : List (Regex σ ν) → Regex σ ν
  | [] => .empty
  | r :: rs => .seq r (seqs rs)

/-- The characters of `w`, each up to the equivalence `same`. -/
def letters (same : σ → σ → Bool) (w : List σ) : Regex σ ν :=
  seqs (w.map fun c => .one (same c))

def plus (p : σ → Bool) : Regex σ ν := .seq (.one p) (.star p)

def matchStart (r : Regex σ ν) (text : List σ) : Option (Cursor σ ν) :=
  (run r ⟨[], text, []⟩).head?

def captured [DecidableEq ν] (name : ν) (c : Cursor σ ν) : List σ :=
  (c.groups.lookup name).getD []

/-- The matches of a pattern from left to right without overlap, for a pattern that consumes at
least one character: after a match the next `skip` characters are passed over. -/
def findFrom (r : Regex σ ν) : Nat → List σ → List σ → List (Cursor σ ν)
  | _, _, [] => []
  | skip + 1, behind, c :: rest => findFrom r skip (c :: behind) rest
  | 0, behind, c :: rest =>
    match (run r ⟨behind, c :: rest, []⟩).head? with
    | none => findFrom r 0 (c :: behind) rest
    | some d => d :: findFrom r (rest.length - d.ahead.length) (c :: behind) rest

def findAll [DecidableEq ν] (r : Regex σ ν) (name : ν) (text : List σ) : List (List σ) :=
  (findFrom r 0 [] text).map (captured name)

/-! ### Runs of the constructors -/

@[simp] theorem run_empty (c : Cursor σ ν) : run .empty c = [c] := rfl

@[simp] theorem run_one_cons (p : σ → Bool) (behind rest : List σ) (x : σ)
    (groups : List (ν × List σ)) :
    run (.one p) ⟨behind, x :: rest, groups⟩ =
      if p x then [⟨x :: behind, rest, groups⟩] else [] := rfl

@[simp] theorem run_look (p : List σ → List σ → Bool) (c : Cursor σ ν) :
    run (.look p) c = if p c.behind c.ahead then [c] else [] := rfl

@[simp] theorem run_seq (r s : Regex σ ν) (c : Cursor σ ν) :
    run (.seq r s) c = (run r c).flatMap (run s) := rfl

@[simp] theorem run_alt (r s : Regex σ ν) (c : Cursor σ ν) :
    run (.alt r s) c = run r c ++ run s c := rfl

@[simp] theorem run_star (p : σ → Bool) (c : Cursor σ ν) :
    run (.star p) c = spanRun p c.groups c.behind c.ahead := rfl

@[simp] theorem run_group (name : ν) (r : Regex σ ν) (c : Cursor σ ν) :
    run (.group name r) c = (run r c).map fun d =>
      { d with groups := (name, c.ahead.take (c.ahead.length - d.ahead.length)) :: d.groups } :=
  rfl

@[simp] theorem run_seqs_nil (c : Cursor σ ν) : run (seqs []) c = [c] := rfl

@[simp] theorem run_seqs_cons (r : Regex σ ν) (rs : List (Regex σ ν)) (c : Cursor σ ν) :
    run (seqs (r :: rs)) c = (run r c).flatMap (run (seqs rs)) := rfl

/-! ### Runs with a continuation -/

section Continuation

variable (k : Cursor σ ν → List (Cursor σ ν))

theorem flatMap_run_alt (r s : Regex σ ν) (c : Cursor σ ν) :
    (run (.alt r s) c).flatMap k = (run r c).flatMap k ++ (run s c).flatMap k := by
  rw [run_alt, List.flatMap_append]

theorem flatMap_run_one (p : σ → Bool) (behind rest : List σ) (x : σ)
    (groups : List (ν × List σ)) :
    (run (.one p) ⟨behind, x :: rest, groups⟩).flatMap k =
      if p x then k ⟨x :: behind, rest, groups⟩ else [] := by
  rw [run_one_cons]
  split <;> simp

theorem flatMap_guard (b : Prop) [Decidable b] (l : List (Cursor σ ν)) :
    (if b then l else []).flatMap k = if b then l.flatMap k else [] := by
  split <;> rfl

theorem flatMap_run_group (name : ν) (r : Regex σ ν) (c : Cursor σ ν) :
    (run (.group name r) c).flatMap k = (run r c).flatMap fun d =>
      k { d with groups := (name, c.ahead.take (c.ahead.length - d.ahead.length)) :: d.groups } := by
  rw [run_group, List.flatMap_map]

end Continuation

/-! ### Repetition -/

theorem spanRun_stop {p : σ → Bool} {groups : List (ν × List σ)} {behind rest : List σ}
    (hrest : ∀ x ∈ rest.head?, p x = false) :
    spanRun p groups behind rest = [⟨behind, rest, groups⟩] := by
  cases rest with
  | nil => rfl
  | cons x rest => simp [spanRun, hrest x (by simp)]

theorem head?_spanRun {p : σ → Bool} {groups : List (ν × List σ)} {w behind rest : List σ}
    (hw : ∀ x ∈ w, p x = true) (hrest : ∀ x ∈ rest.head?, p x = false) :
    (spanRun p groups behind (w ++ rest)).head? = some ⟨w.reverse ++ behind, rest, groups⟩ := by
  induction w generalizing behind with
  | nil => simp [spanRun_stop hrest]
  | cons x w ih =>
    have hx := hw x (by simp)
    have hrun : (spanRun p groups (x :: behind) (w ++ rest)).head? =
        some ⟨w.reverse ++ x :: behind, rest, groups⟩ := ih fun y hy => hw y (by simp [hy])
    simp [spanRun, hx, hrun]

theorem mem_spanRun {p : σ → Bool} {groups : List (ν × List σ)} {behind ahead : List σ}
    {d : Cursor σ ν} (h : d ∈ spanRun p groups behind ahead) :
    ∃ w, (∀ x ∈ w, p x = true) ∧ ahead = w ++ d.ahead ∧ d.behind = w.reverse ++ behind ∧
      d.groups = groups := by
  induction ahead generalizing behind with
  | nil => simp [spanRun] at h; subst h; exact ⟨[], by simp⟩
  | cons x rest ih =>
    rw [spanRun] at h
    split at h
    · rename_i hx
      rcases List.mem_append.mp h with h | h
      · obtain ⟨w, hw, ha, hb, hg⟩ := ih h
        refine ⟨x :: w, ?_, by simp [ha], by simp [hb], hg⟩
        intro y hy
        rcases List.mem_cons.mp hy with rfl | hy
        · exact hx
        · exact hw y hy
      · simp at h; subst h; exact ⟨[], by simp⟩
    · simp at h; subst h; exact ⟨[], by simp⟩

/-! ### Words and runs of classes -/

theorem run_letters_eq [DecidableEq σ] (w : List σ) (behind rest : List σ)
    (groups : List (ν × List σ)) :
    run (letters (fun c d => decide (d = c)) w) ⟨behind, w ++ rest, groups⟩ =
      [⟨w.reverse ++ behind, rest, groups⟩] := by
  induction w generalizing behind with
  | nil => rfl
  | cons x w ih =>
    rw [letters, List.map_cons, run_seqs_cons, List.cons_append, flatMap_run_one, if_pos (by simp),
      ← letters, ih]
    simp

theorem mem_run_letters_eq [DecidableEq σ] {w : List σ} {c d : Cursor σ ν}
    (h : d ∈ run (letters (fun c d => decide (d = c)) w) c) :
    c.ahead = w ++ d.ahead ∧ d.groups = c.groups := by
  induction w generalizing c with
  | nil =>
    rw [letters, List.map_nil, run_seqs_nil, List.mem_singleton] at h
    rw [h]
    exact ⟨rfl, rfl⟩
  | cons x w ih =>
    obtain ⟨behind, ahead, groups⟩ := c
    rw [letters, List.map_cons, run_seqs_cons, ← letters] at h
    cases ahead with
    | nil => cases h
    | cons y rest =>
      rw [flatMap_run_one] at h
      split at h
      · rename_i hy
        obtain ⟨hahead, hgroups⟩ := ih h
        exact ⟨by rw [of_decide_eq_true hy, List.cons_append, ← hahead], hgroups⟩
      · cases h

theorem mem_run_plus {p : σ → Bool} {c d : Cursor σ ν} (h : d ∈ run (plus p) c) :
    ∃ w, w ≠ [] ∧ (∀ x ∈ w, p x = true) ∧ c.ahead = w ++ d.ahead ∧ d.groups = c.groups := by
  obtain ⟨behind, ahead, groups⟩ := c
  rw [plus, run_seq] at h
  cases ahead with
  | nil => cases h
  | cons x rest =>
    rw [flatMap_run_one] at h
    split at h
    · rename_i hx
      obtain ⟨w, hw, hahead, -, hgroups⟩ := mem_spanRun h
      exact ⟨x :: w, List.cons_ne_nil x w, List.forall_mem_cons.mpr ⟨hx, hw⟩,
        congrArg (x :: ·) hahead, hgroups⟩
    · cases h

theorem head?_run_plus {p : σ → Bool} {w : List σ} (hne : w ≠ []) (hw : ∀ x ∈ w, p x = true)
    {rest : List σ} (hrest : ∀ x ∈ rest.head?, p x = false) (behind : List σ)
    (groups : List (ν × List σ)) :
    (run (plus p) ⟨behind, w ++ rest, groups⟩).head? =
      some ⟨w.reverse ++ behind, rest, groups⟩ := by
  obtain ⟨x, w, rfl⟩ := List.exists_cons_of_ne_nil hne
  obtain ⟨hx, hw⟩ := List.forall_mem_cons.mp hw
  rw [plus, run_seq, List.cons_append, flatMap_run_one, if_pos hx, run_star, head?_spanRun hw hrest]
  simp

theorem head?_flatMap {α β : Type} {f : α → List β} {l : List α} {a : α} {b : β}
    (hl : l.head? = some a) (hf : (f a).head? = some b) : (l.flatMap f).head? = some b := by
  obtain ⟨rest, rfl⟩ : ∃ rest, l = a :: rest := by
    cases l with
    | nil => cases hl
    | cons x rest => exact ⟨rest, by rw [List.head?_cons, Option.some.injEq] at hl; rw [hl]⟩
  rw [List.flatMap_cons, List.head?_append, hf, Option.some_or]

/-! ### The words of a pattern -/

/-- The words that a pattern takes from a text, its tests of the text around them left out. -/
def Matches : Regex σ ν → List σ → Prop
  | .empty, w => w = []
  | .one p, w => ∃ x, p x = true ∧ w = [x]
  | .look _, w => w = []
  | .seq r s, w => ∃ u v, w = u ++ v ∧ Matches r u ∧ Matches s v
  | .alt r s, w => Matches r w ∨ Matches s w
  | .star p, w => ∀ x ∈ w, p x = true
  | .group _ r, w => Matches r w

theorem exists_matches_of_mem_run {r : Regex σ ν} {c d : Cursor σ ν} (h : d ∈ run r c) :
    ∃ w, Matches r w ∧ c.ahead = w ++ d.ahead := by
  induction r generalizing c d with
  | empty =>
    obtain rfl := List.mem_singleton.mp h
    exact ⟨[], rfl, rfl⟩
  | one p =>
    obtain ⟨behind, ahead, groups⟩ := c
    cases ahead with
    | nil => cases h
    | cons x rest =>
      rw [run_one_cons] at h
      split at h
      · rename_i hx
        obtain rfl := List.mem_singleton.mp h
        exact ⟨[x], ⟨x, hx, rfl⟩, rfl⟩
      · cases h
  | look p =>
    rw [run_look] at h
    split at h
    · obtain rfl := List.mem_singleton.mp h
      exact ⟨[], rfl, rfl⟩
    · cases h
  | seq r s ihr ihs =>
    obtain ⟨e, he, hd⟩ := List.mem_flatMap.mp h
    obtain ⟨u, hu, hc⟩ := ihr he
    obtain ⟨v, hv, he⟩ := ihs hd
    exact ⟨u ++ v, ⟨u, v, rfl, hu, hv⟩, by rw [hc, he, List.append_assoc]⟩
  | alt r s ihr ihs =>
    rcases List.mem_append.mp h with h | h
    · obtain ⟨w, hw, hc⟩ := ihr h
      exact ⟨w, .inl hw, hc⟩
    · obtain ⟨w, hw, hc⟩ := ihs h
      exact ⟨w, .inr hw, hc⟩
  | star p =>
    obtain ⟨w, hw, hc, -, -⟩ := mem_spanRun h
    exact ⟨w, hw, hc⟩
  | group name r ih =>
    obtain ⟨e, he, rfl⟩ := List.mem_map.mp h
    obtain ⟨w, hw, hc⟩ := ih he
    exact ⟨w, hw, hc⟩

/-- A pattern takes at most `n` characters, all of them of class `p`. -/
def Within (p : σ → Bool) (n : Nat) (r : Regex σ ν) : Prop :=
  ∀ w, Matches r w → w.length ≤ n ∧ ∀ x ∈ w, p x = true

section Within

variable {p q : σ → Bool} {n : Nat} {r s : Regex σ ν}

theorem Within.empty : Within p n (.empty : Regex σ ν) := by
  rintro w rfl
  exact ⟨Nat.zero_le n, List.forall_mem_nil _⟩

theorem Within.one (hq : ∀ x, q x = true → p x = true) : Within p (n + 1) (.one q : Regex σ ν) := by
  rintro w ⟨x, hx, rfl⟩
  exact ⟨Nat.succ_le_succ (Nat.zero_le n), fun y hy => List.mem_singleton.mp hy ▸ hq x hx⟩

theorem Within.cons (hq : ∀ x, q x = true → p x = true) (hr : Within p n r) :
    Within p (n + 1) (.seq (.one q) r) := by
  rintro w ⟨u, v, rfl, ⟨x, hx, rfl⟩, hv⟩
  obtain ⟨hlength, hall⟩ := hr v hv
  exact ⟨Nat.succ_le_succ hlength, List.forall_mem_cons.mpr ⟨hq x hx, hall⟩⟩

theorem Within.alt (hr : Within p n r) (hs : Within p n s) : Within p n (.alt r s) := by
  rintro w (hw | hw)
  · exact hr w hw
  · exact hs w hw

end Within

/-! ### Search -/

/-- A place where a pattern matches is found, unless the search passes over it inside a match that
begins before it and ends behind it. -/
theorem mem_findFrom {r : Regex σ ν} {x : σ} {rest : List σ} {d : Cursor σ ν}
    (pre behind : List σ) (skip : Nat) (hskip : skip ≤ pre.length)
    (hd : (run r ⟨pre.reverse ++ behind, x :: rest, []⟩).head? = some d) :
    d ∈ findFrom r skip behind (pre ++ x :: rest) ∨
      ∃ pre₁ y pre₂ d', pre = pre₁ ++ y :: pre₂ ∧
        (run r ⟨pre₁.reverse ++ behind, y :: pre₂ ++ x :: rest, []⟩).head? = some d' ∧
        d' ∈ findFrom r skip behind (pre ++ x :: rest) ∧ d'.ahead.length ≤ rest.length := by
  induction pre generalizing behind skip with
  | nil =>
    rw [Nat.le_zero.mp hskip]
    refine .inl ?_
    rw [List.reverse_nil, List.nil_append] at hd
    rw [List.nil_append, findFrom, hd]
    exact List.mem_cons_self
  | cons y pre ih =>
    rw [List.reverse_cons, List.append_assoc, List.singleton_append] at hd
    -- a match found in the rest of the text is one of the whole search
    have hstep : ∀ skip', skip' ≤ pre.length →
        (∀ e, e ∈ findFrom r skip' (y :: behind) (pre ++ x :: rest) →
          e ∈ findFrom r skip behind (y :: pre ++ x :: rest)) →
        d ∈ findFrom r skip behind (y :: pre ++ x :: rest) ∨
          ∃ pre₁ z pre₂ d', y :: pre = pre₁ ++ z :: pre₂ ∧
            (run r ⟨pre₁.reverse ++ behind, z :: pre₂ ++ x :: rest, []⟩).head? = some d' ∧
            d' ∈ findFrom r skip behind (y :: pre ++ x :: rest) ∧ d'.ahead.length ≤ rest.length := by
      intro skip' hle hsub
      rcases ih (y :: behind) skip' hle hd with hfound | ⟨pre₁, z, pre₂, d', heq, hrun, hmem, hlen⟩
      · exact .inl (hsub d hfound)
      · refine .inr ⟨y :: pre₁, z, pre₂, d', by rw [heq, List.cons_append], ?_, hsub d' hmem, hlen⟩
        rw [List.reverse_cons, List.append_assoc, List.singleton_append]
        exact hrun
    cases skip with
    | succ skip =>
      exact hstep skip (Nat.le_of_succ_le_succ hskip) fun e he => he
    | zero =>
      cases hrun : (run r ⟨behind, y :: (pre ++ x :: rest), []⟩).head? with
      | none =>
        apply hstep 0 (Nat.zero_le _)
        intro e he
        rw [List.cons_append, findFrom, hrun]
        exact he
      | some d' =>
        have hmem : ∀ e, e = d' ∨ e ∈ findFrom r ((pre ++ x :: rest).length - d'.ahead.length)
            (y :: behind) (pre ++ x :: rest) → e ∈ findFrom r 0 behind (y :: pre ++ x :: rest) := by
          intro e he
          rw [List.cons_append, findFrom, hrun]
          exact List.mem_cons.mpr he
        by_cases hover : d'.ahead.length ≤ rest.length
        · exact .inr ⟨[], y, pre, d', rfl, hrun, hmem d' (.inl rfl), hover⟩
        · refine hstep _ ?_ fun e he => hmem e (.inr he)
          rw [List.length_append, List.length_cons]
          omega

/-- Each match that the search finds is the first one at some place of the text. -/
theorem exists_of_mem_findFrom {r : Regex σ ν} {skip : Nat} {behind text : List σ} {d : Cursor σ ν}
    (h : d ∈ findFrom r skip behind text) :
    ∃ pre rest, text = pre ++ rest ∧ (run r ⟨pre.reverse ++ behind, rest, []⟩).head? = some d := by
  induction text generalizing skip behind with
  | nil => cases h
  | cons c text ih =>
    -- a match in the rest of the text
    have hrest : ∀ skip', d ∈ findFrom r skip' (c :: behind) text →
        ∃ pre rest, c :: text = pre ++ rest ∧
          (run r ⟨pre.reverse ++ behind, rest, []⟩).head? = some d := by
      intro skip' hmem
      obtain ⟨pre, rest, rfl, hrun⟩ := ih hmem
      refine ⟨c :: pre, rest, rfl, ?_⟩
      rwa [List.reverse_cons, List.append_assoc, List.singleton_append]
    cases skip with
    | succ skip => exact hrest skip h
    | zero =>
      rw [findFrom] at h
      split at h
      · exact hrest 0 h
      · rename_i e hrun
        rcases List.mem_cons.mp h with rfl | hmem
        · exact ⟨[], c :: text, rfl, hrun⟩
        · exact hrest _ hmem

end Regex

end Clickstream.Kit
