import Mathlib.Algebra.BigOperators.Group.Finset.Piecewise
import ThreeAddress.Proofs.Layout.ControlFlow

set_option autoImplicit false

/-! # Flow through linked programs

A run that ends at the end of its program leaves every address as often as it comes to it. How often
it goes from one address to another is a flow through the program (`passes`), and what can be said
of it follows from which addresses lead where. The piece of a chain is a region that is entered
at its beginning only (`Chain.Region`). So every address in the code of a block is visited as
often as the first one, and a region is left as often as it is entered from outside
(`Chain.Region.count_end`). -/

namespace ThreeAddress

/-! ## Arrivals and departures -/

/-- How often a path, which has the latest address first, goes from `x` to `y`. -/
def passes (x y : Nat) : List Nat → Nat
  | b :: a :: path => passes x y (a :: path) + if a = x ∧ b = y then 1 else 0
  | _ => 0

namespace Program

variable {p : Program} {path : List Nat}

/-- A way comes to an address from those that lead there, unless it begins there. -/
theorem Way.count_arrivals (h : p.Way path) {y : Nat} (sources : Finset Nat)
    (hsources : ∀ x, p.Leads x y → x ∈ sources) :
    path.count y = (if path.getLast? = some y then 1 else 0) + ∑ x ∈ sources, passes x y path := by
  induction path with
  | nil => simp [passes]
  | cons b path ih =>
      cases path with
      | nil => simp [passes, List.count_singleton]
      | cons a path =>
          obtain ⟨hlead, hway⟩ := List.isChain_cons_cons.1 h
          rw [List.count_cons, ih hway, List.getLast?_cons_cons]
          simp only [passes, Finset.sum_add_distrib]
          -- the last step comes to `y` from exactly one of the sources, or goes elsewhere
          by_cases hb : b = y
          · subst hb
            simp [hsources a hlead, Nat.add_assoc]
          · simp [hb]

/-- A way leaves an address for those where it leads to, unless it ends there. -/
theorem Way.count_departures (h : p.Way path) {x : Nat} (targets : Finset Nat)
    (htargets : ∀ y, p.Leads x y → y ∈ targets) :
    path.tail.count x = ∑ y ∈ targets, passes x y path := by
  induction path with
  | nil => simp [passes]
  | cons b path ih =>
      cases path with
      | nil => simp [passes]
      | cons a path =>
          obtain ⟨hlead, hway⟩ := List.isChain_cons_cons.1 h
          simp only [passes, Finset.sum_add_distrib, ← ih hway, List.tail_cons, List.count_cons]
          by_cases ha : a = x
          · subst ha
            simp [htargets b hlead]
          · simp [ha]

/-- The path goes from the first address of the program to its end. -/
structure Course (p : Program) (path : List Nat) : Prop where
  way : p.Way path
  first : path.getLast? = some 0
  last : path.head? = some p.size

namespace Course

theorem arrivals (h : p.Course path) {y : Nat} (hy : 0 < y) (sources : Finset Nat)
    (hsources : ∀ x, p.Leads x y → x ∈ sources) :
    path.count y = ∑ x ∈ sources, passes x y path := by
  rw [h.way.count_arrivals sources hsources, h.first, if_neg (by simp; omega), Nat.zero_add]

theorem departures (h : p.Course path) {x : Nat} (hx : x < p.size) (targets : Finset Nat)
    (htargets : ∀ y, p.Leads x y → y ∈ targets) :
    path.count x = ∑ y ∈ targets, passes x y path := by
  have hcount : path.count x = path.tail.count x := by
    obtain ⟨tail, rfl⟩ := List.head?_eq_some_iff.1 h.last
    exact List.count_cons_of_ne (by omega)
  rw [hcount, h.way.count_departures targets htargets]

end Course

end Program

/-! ## Regions -/

namespace Chain

/-- The chain stands in the program, its blocks contain no jumps, and from outside nothing leads
    into the chain or right behind it, except to its beginning. -/
structure Region (g : BlockGraph) (p : Program) (base : Nat) (c : Chain) : Prop where
  placed : c.Placed g p base
  plain : c.Plain
  le_size : base + c.size ≤ p.size
  within : ∀ x y, p.Leads x y → base < y → y ≤ base + c.size → base ≤ x ∧ x < base + c.size

variable {g : BlockGraph} {p : Program} {c d : Chain} {base b x y : Nat} {path : List Nat}

theorem length_code_le_size (c : Chain) : c.code.length ≤ c.size := by
  cases c with
  | last => grind [code, size_last]
  | link => grind [code, size_link]
  | cond => grind [code, size_cond]
  | condElse => grind [code, size_condElse]
  | loop => grind [code, size_loop]

namespace Region

theorem leads_cases (h : c.Region g p base) (hlead : p.Leads x y) (hle : base ≤ x)
    (hlt : x < base + c.size) :
    (x < base + c.code.length ∧ y = x + 1) ∨ (x, y) ∈ c.joints base ∨
      ∃ d b, (d, b) ∈ c.pieces base ∧ b ≤ x ∧ x < b + d.size ∧ b ≤ y ∧ y ≤ b + d.size := by
  rcases h.placed.leads_cases h.plain hle hlt hlead with hcode | hjoint | ⟨d, b, hmem, hle', hlt'⟩
  · exact .inl hcode
  · exact .inr (.inl hjoint)
  · have hwithin := (h.placed.piece hmem).leads_within (h.plain.piece hmem) hle' hlt' hlead
    exact .inr (.inr ⟨d, b, hmem, hle', hlt', hwithin⟩)

/-- The pieces of a region are regions. -/
theorem piece (h : c.Region g p base) (hmem : (d, b) ∈ c.pieces base) : d.Region g p b := by
  have hbounds := bounds_of_mem_pieces hmem
  have hle := h.le_size
  refine ⟨h.placed.piece hmem, h.plain.piece hmem, by omega, fun x y hlead hlt hle' => ?_⟩
  obtain ⟨hlex, hltx⟩ := h.within x y hlead (by omega) (by omega)
  -- whatever leads into the piece stands in the chain, and only the piece itself leads there
  rcases h.leads_cases hlead hlex hltx with
    ⟨hcode, rfl⟩ | hjoint | ⟨d', b', hmem', hle₁, hlt₁, hle₂, hle₃⟩
  · omega
  · rcases target_of_mem_joints hjoint with rfl | ⟨d', hmem'⟩
    · omega
    · have := separated_of_mem_pieces hmem hmem'
      omega
  · rcases separated_of_mem_pieces hmem hmem' with ⟨rfl, rfl⟩ | hbefore | hbehind
    · exact ⟨hle₁, hlt₁⟩
    · omega
    · omega

theorem part (h : c.Region g p base) (hpart : Part c base d b) : d.Region g p b :=
  hpart.inherit (motive := fun d b => d.Region g p b) (fun _ _ _ _ h hmem => h.piece hmem) h

/-- Behind its beginning, the code of the first block is reached from the place before only. -/
theorem arrivals_code (h : c.Region g p base) (hlead : p.Leads x y) (hlt : base < y)
    (hle : y ≤ base + c.code.length) : x + 1 = y := by
  have hlength := c.length_code_le_size
  obtain ⟨hlex, hltx⟩ := h.within x y hlead hlt (by omega)
  rcases h.leads_cases hlead hlex hltx with
    ⟨-, rfl⟩ | hjoint | ⟨d', b', hmem', hle₁, hlt₁, hle₂, hle₃⟩
  · rfl
  · rcases target_of_mem_joints hjoint with rfl | ⟨d, hmem⟩
    · omega
    · have := bounds_of_mem_pieces hmem
      omega
  · have := bounds_of_mem_pieces hmem'
    omega

/-- The beginning of a piece is reached from the joints that lead there and, if the piece is a loop,
    from the end of its body. -/
theorem arrivals_piece (h : c.Region g p base) (hmem : (d, b) ∈ c.pieces base)
    (hlead : p.Leads x b) : (x, b) ∈ c.joints base ∨ d.back? b = some x := by
  have hbounds := bounds_of_mem_pieces hmem
  obtain ⟨hlex, hltx⟩ := h.within x b hlead (by omega) (by omega)
  rcases h.leads_cases hlead hlex hltx with
    ⟨hcode, rfl⟩ | hjoint | ⟨d', b', hmem', hle₁, hlt₁, hle₂, hle₃⟩
  · omega
  · exact .inl hjoint
  · rcases separated_of_mem_pieces hmem hmem' with ⟨rfl, rfl⟩ | hbefore | hbehind
    · exact .inr ((h.placed.piece hmem).back_of_leads (h.plain.piece hmem) hle₁ hlt₁ hlead)
    · omega
    · omega

theorem departures_joint (h : c.Region g p base) {t : Nat} (hjoint : (x, t) ∈ c.joints base)
    (hlead : p.Leads x y) : (x, y) ∈ c.joints base := by
  obtain ⟨hle, hlt, houtside⟩ := bounds_of_mem_joints hjoint
  rcases h.leads_cases hlead (by omega) hlt with
    ⟨hcode, -⟩ | hjoint' | ⟨d', b', hmem', hle₁, hlt₁, -⟩
  · omega
  · exact hjoint'
  · have := houtside d' b' hmem'
    omega

/-! ## The flow through a region -/

/-- The code of the first block is executed from its beginning to its end. -/
theorem count_code (h : c.Region g p base) (hpath : p.Course path) {k : Nat}
    (hk : k ≤ c.code.length) : path.count (base + k) = path.count base := by
  have hlength := c.length_code_le_size
  have hle := h.le_size
  induction k with
  | zero => rfl
  | succ k ih =>
      rw [← ih (by omega)]
      have hlt : base + k < p.size := by omega
      have hout := hpath.departures hlt {base + k + 1} fun y hlead => by
        simpa using h.placed.leads_code h.plain (Nat.le_add_right base k) (by omega) hlead
      have hin := hpath.arrivals (Nat.succ_pos (base + k)) {base + k} fun x hlead => by
        have hnext := h.arrivals_code hlead (by omega) (by omega)
        simpa using hnext
      rw [Finset.sum_singleton] at hout hin
      exact hin.trans hout.symm

/-- A joint is left for the addresses that it leads to. -/
theorem count_joint (h : c.Region g p base) (hpath : p.Course path) {t : Nat}
    (hjoint : (x, t) ∈ c.joints base) (targets : Finset Nat)
    (htargets : ∀ y, (x, y) ∈ c.joints base → y ∈ targets) :
    path.count x = ∑ y ∈ targets, passes x y path := by
  have hlt : x < p.size := Nat.lt_of_lt_of_le (bounds_of_mem_joints hjoint).2.1 h.le_size
  exact hpath.departures hlt targets fun y hlead => htargets y (h.departures_joint hjoint hlead)

end Region

/-- How often a path comes back to the beginning of the chain from the end of a loop's body. -/
def returns (path : List Nat) (c : Chain) (base : Nat) : Nat :=
  match c.back? base with
  | some a => path.count a
  | none => 0

namespace Region

/-- The end of a loop's body leads back to the loop only. -/
theorem count_back (h : c.Region g p base) (hpath : p.Course path) (hback : c.back? base = some x) :
    path.count x = passes x base path := by
  obtain ⟨id, code, test, body, rest, rfl, rfl⟩ := exists_loop_of_back? hback
  have hjoint := h.count_joint hpath (x := base + code.length + 1 + body.size) (t := base)
    (by simp [joints]) {base} fun y hy => by
      simp only [joints, List.mem_cons, Prod.mk.injEq, List.not_mem_nil, or_false] at hy
      simp only [Finset.mem_singleton]
      omega
  rwa [Finset.sum_singleton] at hjoint

/-- A piece is entered from the joints that lead to it, and by returning to it. -/
theorem count_piece (h : c.Region g p base) (hpath : p.Course path)
    (hmem : (d, b) ∈ c.pieces base) (sources : Finset Nat)
    (hsources : ∀ x, x ∈ sources ↔ (x, b) ∈ c.joints base) :
    path.count b = ∑ x ∈ sources, passes x b path + d.returns path b := by
  have hbounds := bounds_of_mem_pieces hmem
  have hpos : 0 < b := by omega
  unfold returns
  cases hback : d.back? b with
  | none =>
      refine hpath.arrivals hpos sources fun x hlead => ?_
      rcases h.arrivals_piece hmem hlead with hjoint | hback'
      · exact (hsources x).2 hjoint
      · rw [hback] at hback'
        cases hback'
  | some a =>
      -- the joints of the chain stand outside the piece, and what returns to it stands inside
      have hout : a ∉ sources := by
        intro ha
        obtain ⟨-, -, houtside⟩ := bounds_of_mem_joints ((hsources a).1 ha)
        have hside := houtside d b hmem
        obtain ⟨id, code, test, body, rest, rfl, rfl⟩ := exists_loop_of_back? hback
        rw [size_loop] at hside
        omega
      have hin := hpath.arrivals hpos (insert a sources) fun x hlead => by
        rw [Finset.mem_insert, hsources]
        rcases h.arrivals_piece hmem hlead with hjoint | hback'
        · exact .inr hjoint
        · rw [hback] at hback'
          exact .inl (Option.some.inj hback').symm
      dsimp only
      rw [hin, Finset.sum_insert hout, (h.piece hmem).count_back hpath hback, Nat.add_comm]

/-- What follows a straight block is entered as often as the block. -/
theorem count_link {id : BlockId} {code : List Instr} {rest : Chain}
    (h : (link id code rest).Region g p base) (hpath : p.Course path) :
    let inner := base + code.length + 1
    path.count inner = path.count base + rest.returns path inner := by
  intro inner
  have hcode : path.count (base + code.length) = path.count base :=
    h.count_code hpath (Nat.le_refl _)
  have hexit : path.count (base + code.length) = _ :=
    h.count_joint hpath (t := inner) (by grind [joints]) {inner} (by grind [joints])
  have hrest := h.count_piece hpath (d := rest) (b := inner) (by grind [pieces])
    {base + code.length} (by grind [joints])
  rw [Finset.sum_singleton] at hexit hrest
  omega

/-- A conditional is left for its arm or for what follows it, and the arm is left for the latter. -/
theorem count_cond {id : BlockId} {code : List Instr} {test : String} {arm rest : Chain}
    (h : (cond id code test arm rest).Region g p base) (hpath : p.Course path) :
    let exit := base + code.length
    let inner := exit + 1
    let outer := inner + arm.size + 1
    path.count base = passes exit inner path + passes exit outer path ∧
      path.count inner = passes exit inner path + arm.returns path inner ∧
      path.count outer = passes exit outer path + path.count (inner + arm.size)
        + rest.returns path outer := by
  intro exit inner outer
  have hcode : path.count exit = path.count base := h.count_code hpath (Nat.le_refl _)
  have hexit : path.count exit = _ :=
    h.count_joint hpath (t := inner) (by grind [joints]) {inner, outer} (by grind [joints])
  have hclose : path.count (inner + arm.size) = _ :=
    h.count_joint hpath (t := outer) (by grind [joints]) {outer} (by grind [joints])
  have harm := h.count_piece hpath (d := arm) (b := inner) (by grind [pieces]) {exit}
    (by grind [joints])
  have hrest := h.count_piece hpath (d := rest) (b := outer) (by grind [pieces])
    {exit, inner + arm.size} (by grind [joints])
  rw [Finset.sum_pair (by omega)] at hexit hrest
  rw [Finset.sum_singleton] at hclose harm
  omega

/-- A conditional is left for one of its arms, and both are left for what follows it. -/
theorem count_condElse {id : BlockId} {code : List Instr} {test : String}
    {thenArm elseArm rest : Chain}
    (h : (condElse id code test thenArm elseArm rest).Region g p base) (hpath : p.Course path) :
    let exit := base + code.length
    let inner := exit + 1
    let middle := inner + thenArm.size + 1
    let outer := middle + elseArm.size + 1
    path.count base = passes exit inner path + passes exit middle path ∧
      path.count inner = passes exit inner path + thenArm.returns path inner ∧
      path.count middle = passes exit middle path + elseArm.returns path middle ∧
      path.count outer = path.count (inner + thenArm.size) + path.count (middle + elseArm.size)
        + rest.returns path outer := by
  intro exit inner middle outer
  have hcode : path.count exit = path.count base := h.count_code hpath (Nat.le_refl _)
  have hexit : path.count exit = _ :=
    h.count_joint hpath (t := inner) (by grind [joints]) {inner, middle} (by grind [joints])
  have hclose : path.count (inner + thenArm.size) = _ :=
    h.count_joint hpath (t := outer) (by grind [joints]) {outer} (by grind [joints])
  have hclose' : path.count (middle + elseArm.size) = _ :=
    h.count_joint hpath (t := outer) (by grind [joints]) {outer} (by grind [joints])
  have hthen := h.count_piece hpath (d := thenArm) (b := inner) (by grind [pieces]) {exit}
    (by grind [joints])
  have helse := h.count_piece hpath (d := elseArm) (b := middle) (by grind [pieces]) {exit}
    (by grind [joints])
  have hrest := h.count_piece hpath (d := rest) (b := outer) (by grind [pieces])
    {inner + thenArm.size, middle + elseArm.size} (by grind [joints])
  rw [Finset.sum_pair (by omega)] at hexit hrest
  rw [Finset.sum_singleton] at hclose hclose' hthen helse
  omega

/-- A loop is left for its body or for what follows it. -/
theorem count_loop {id : BlockId} {code : List Instr} {test : String} {body rest : Chain}
    (h : (loop id code test body rest).Region g p base) (hpath : p.Course path) :
    let exit := base + code.length
    let inner := exit + 1
    let outer := inner + body.size + 1
    path.count base = passes exit inner path + passes exit outer path ∧
      path.count inner = passes exit inner path + body.returns path inner ∧
      path.count outer = passes exit outer path + rest.returns path outer := by
  intro exit inner outer
  have hcode : path.count exit = path.count base := h.count_code hpath (Nat.le_refl _)
  have hexit : path.count exit = _ :=
    h.count_joint hpath (t := inner) (by grind [joints]) {inner, outer} (by grind [joints])
  have hbody := h.count_piece hpath (d := body) (b := inner) (by grind [pieces]) {exit}
    (by grind [joints])
  have hrest := h.count_piece hpath (d := rest) (b := outer) (by grind [pieces]) {exit}
    (by grind [joints])
  rw [Finset.sum_pair (by omega)] at hexit
  rw [Finset.sum_singleton] at hbody hrest
  omega

/-- **A region is left as often as it is entered from outside.** -/
theorem count_end (h : c.Region g p base) (hpath : p.Course path) :
    path.count (base + c.size) + c.returns path base = path.count base := by
  -- each form of chain adds up what goes through its pieces, which are left as they are entered
  induction c generalizing base with
  | last id code =>
      rw [size_last]
      exact h.count_code hpath (Nat.le_refl _)
  | link id code rest ih =>
      have hin := h.count_link hpath
      have hrest := ih (h.piece (b := base + code.length + 1) (by simp [pieces]))
      obtain ⟨-, -, hsize⟩ := h.placed.link
      have hreturns : (link id code rest).returns path base = 0 := rfl
      rw [hsize, hreturns]
      omega
  | cond id code test arm rest iha ihr =>
      obtain ⟨hout, hin, hmerge⟩ := h.count_cond hpath
      have harm := iha (h.piece (b := base + code.length + 1) (by simp [pieces]))
      have hrest := ihr (h.piece (b := base + code.length + 1 + arm.size + 1) (by simp [pieces]))
      obtain ⟨-, -, -, -, hsize⟩ := h.placed.cond
      have hreturns : (cond id code test arm rest).returns path base = 0 := rfl
      rw [hsize, hreturns]
      omega
  | condElse id code test thenArm elseArm rest iht ihe ihr =>
      obtain ⟨hout, hthen, helse, hmerge⟩ := h.count_condElse hpath
      have hthenEnd := iht (h.piece (b := base + code.length + 1) (by simp [pieces]))
      have helseEnd := ihe (h.piece (b := base + code.length + 1 + thenArm.size + 1)
        (by simp [pieces]))
      have hrest := ihr (h.piece
        (b := base + code.length + 1 + thenArm.size + 1 + elseArm.size + 1) (by simp [pieces]))
      obtain ⟨-, -, -, -, -, -, hsize⟩ := h.placed.condElse
      have hreturns : (condElse id code test thenArm elseArm rest).returns path base = 0 := rfl
      rw [hsize, hreturns]
      omega
  | loop id code test body rest ihb ihr =>
      obtain ⟨hout, hin, hexit⟩ := h.count_loop hpath
      have hbody := ihb (h.piece (b := base + code.length + 1) (by simp [pieces]))
      have hrest := ihr (h.piece (b := base + code.length + 1 + body.size + 1) (by simp [pieces]))
      obtain ⟨-, -, -, -, hsize⟩ := h.placed.loop
      have hreturns : (loop id code test body rest).returns path base
        = path.count (base + code.length + 1 + body.size) := rfl
      rw [hsize, hreturns]
      omega

end Region

end Chain

end ThreeAddress
