/-
The token buckets of the public API.

Every identity has a bucket of at most `burst` tokens that fills at `rate` tokens a second; a
request takes one.  An identity's bucket is a potential for the requests it can still make
(`tokens_allow`), so in a time `t` at most `burst + rate * t` of them are allowed.

The limiter keeps 4096 buckets and drops the oldest when another identity comes.  A dropped
bucket starts full again, which is harmless if it was full by then (`allowed_le`) and gives away
tokens if not (`flooded_identity_exceeds`).
-/
import Mathlib.Data.Rat.Floor
import GideonDB.Go.Map
import GideonDB.Go.Strings

namespace GideonDB.Api

open Go GoMap List

/-- `rateBucket`. -/
structure RateBucket where
  tokens : ℚ
  last : ℚ

/-- `requestRateLimiter`. -/
structure RequestRateLimiter where
  rate : ℚ
  burst : ℚ
  buckets : GoMap GoString RateBucket

/-- How many buckets are kept. -/
def maximumRateLimitIdentities : ℕ := 4096

/-- No bucket yet. -/
def newRequestRateLimiter (rate burst : ℕ) : RequestRateLimiter := ⟨rate, burst, .empty⟩

/-- The key the loop over the buckets ends with, when it visits them in the given order. -/
def oldestKey (order : List (GoString × RateBucket)) (now : ℚ) : GoString :=
  (order.foldl (fun oldest e =>
    if oldest.1 = [] ∨ e.2.last < oldest.2 then (e.1, e.2.last) else oldest) ([], now)).1

namespace RequestRateLimiter

/-- The tokens of an identity at the time `now`; a new bucket is full. -/
def tokens (l : RequestRateLimiter) (key : GoString) (now : ℚ) : ℚ :=
  let bucket := (l.buckets.get key).getD ⟨l.burst, now⟩
  min l.burst (bucket.tokens + (now - bucket.last) * l.rate)

/-- `allow`: the answer and the seconds to wait. -/
def allow (l : RequestRateLimiter) (order : List (GoString × RateBucket)) (key : GoString)
    (now : ℚ) : (Bool × ℤ) × RequestRateLimiter :=
  let buckets :=
    if l.buckets.has key = false ∧ maximumRateLimitIdentities ≤ l.buckets.size then
      l.buckets.delete (oldestKey order now)
    else l.buckets
  let tokens := l.tokens key now
  if 1 ≤ tokens then ((true, 0), { l with buckets := buckets.set key ⟨tokens - 1, now⟩ })
  else
    ((false, max 1 (⌊(1 - tokens) / l.rate⌋ + 1)),
      { l with buckets := buckets.set key ⟨tokens, now⟩ })

/-- If the call drops a bucket, this bucket is full again. -/
def DropsFull (l : RequestRateLimiter) (order : List (GoString × RateBucket)) (key : GoString)
    (now : ℚ) : Prop :=
  l.buckets.has key = false → maximumRateLimitIdentities ≤ l.buckets.size →
    l.tokens (oldestKey order now) now = l.burst

end RequestRateLimiter

/-- A call and whether it was allowed. -/
structure Answer where
  key : GoString
  now : ℚ
  allowed : Bool

/-- The calls of a limiter from the time `time` on, with their answers: the clock does not go
back, the buckets are visited in any order, and every call meets `p`. -/
inductive Run (p : RequestRateLimiter → List (GoString × RateBucket) → GoString → ℚ → Prop) :
    RequestRateLimiter → ℚ → List Answer → Prop
  | nil {l : RequestRateLimiter} {time : ℚ} : Run p l time []
  | call {l : RequestRateLimiter} {time : ℚ} {order : List (GoString × RateBucket)}
      {answers : List Answer} (key : GoString) (now : ℚ) (hclock : time ≤ now)
      (horder : order.Perm l.buckets.toList) (hp : p l order key now)
      (hrun : Run p (l.allow order key now).2 now answers) :
      Run p l time (⟨key, now, (l.allow order key now).1.1⟩ :: answers)

/-- How many calls of an identity are allowed in a time interval. -/
def allowedCalls (key : GoString) (start stop : ℚ) (answers : List Answer) : ℕ :=
  answers.countP fun a => a.allowed && decide (a.key = key ∧ start ≤ a.now ∧ a.now ≤ stop)

/-! ### The potential of an identity -/

variable {l : RequestRateLimiter} {key other : GoString} {time now start stop : ℚ}
  {order : List (GoString × RateBucket)} {answers : List Answer}

namespace RequestRateLimiter

lemma rate_allow : (l.allow order key now).2.rate = l.rate := by
  rw [allow]
  split <;> rfl

lemma burst_allow : (l.allow order key now).2.burst = l.burst := by
  rw [allow]
  split <;> rfl

lemma tokens_le_burst (l : RequestRateLimiter) (key : GoString) (now : ℚ) :
    l.tokens key now ≤ l.burst := min_le_left _ _

lemma tokens_le_add (key : GoString) (hrate : 0 ≤ l.rate) (h : time ≤ now) :
    l.tokens key now ≤ l.tokens key time + l.rate * (now - time) := by
  have hgain := mul_nonneg hrate (sub_nonneg.2 h)
  rw [tokens, tokens, ← min_add_add_right]
  refine min_le_min (by linarith) ?_
  cases l.buckets.get key with
  | none =>
    simp only [Option.getD_none]
    linarith
  | some bucket =>
    simp only [Option.getD_some]
    linarith

lemma one_le_tokens (h : (l.allow order key now).1.1 = true) : 1 ≤ l.tokens key now := by
  by_contra hlt
  simp [allow, hlt] at h

/-- What a call takes from the buckets: a token from the one of its identity. -/
lemma tokens_allow (other : GoString) (h : l.DropsFull order key now) :
    (l.allow order key now).2.tokens other now +
      (if (l.allow order key now).1.1 ∧ key = other then 1 else 0) ≤ l.tokens other now := by
  by_cases hother : key = other
  · subst hother
    rw [allow]
    split <;> simp [tokens, get_set_self]
  rw [if_neg fun hand => hother hand.2, add_zero]
  -- another identity's bucket stays, or it is dropped and was full
  have hget : (l.allow order key now).2.buckets.get other = l.buckets.get other ∨
      l.tokens other now = l.burst := by
    have hset : (l.allow order key now).2.buckets.get other =
        (if l.buckets.has key = false ∧ maximumRateLimitIdentities ≤ l.buckets.size then
          l.buckets.delete (oldestKey order now) else l.buckets).get other := by
      rw [allow]
      split <;> exact get_set_of_ne _ _ (Ne.symm hother)
    rw [hset]
    split_ifs with hdrop
    · rw [get_delete]
      split_ifs with heq
      · exact .inr (heq ▸ h hdrop.1 hdrop.2)
      · exact .inl rfl
    · exact .inl rfl
  rcases hget with hget | hfull
  · rw [tokens, tokens, hget, rate_allow, burst_allow]
  · rw [hfull, ← burst_allow]
    exact tokens_le_burst _ _ _

end RequestRateLimiter

/-! ### Whole runs -/

open RequestRateLimiter

lemma allowedCalls_cons (a : Answer) : allowedCalls key start stop (a :: answers) =
    allowedCalls key start stop answers +
      if a.allowed ∧ a.key = key ∧ start ≤ a.now ∧ a.now ≤ stop then 1 else 0 := by
  simp [allowedCalls, countP_cons]

lemma allowedCalls_append (before : List Answer) : allowedCalls key start stop (before ++ answers) =
    allowedCalls key start stop before + allowedCalls key start stop answers := countP_append

variable {p : RequestRateLimiter → List (GoString × RateBucket) → GoString → ℚ → Prop}

lemma Run.allowedCalls_eq_zero (h : Run p l time answers) (hstop : stop < time) :
    allowedCalls key start stop answers = 0 := by
  induction h with
  | nil => rfl
  | call _ _ hclock _ _ _ ih =>
    have hlate := hstop.trans_le hclock
    rw [allowedCalls_cons, ih hlate, if_neg fun hand => hlate.not_ge hand.2.2.2]

/-- The tokens of an identity bound what it is allowed from now on. -/
lemma Run.allowedCalls_le_tokens (h : Run DropsFull l time answers) (hrate : 0 ≤ l.rate)
    (hstop : time ≤ stop) (key : GoString) (start : ℚ) : allowedCalls key start stop answers = 0 ∨
      (allowedCalls key start stop answers : ℚ) ≤ l.tokens key time + l.rate * (stop - time) := by
  induction h with
  | nil => exact .inl rfl
  | @call l time order answers key' now hclock _ hp hrun ih =>
    by_cases hlate : stop < now
    · exact .inl ((Run.call _ _ le_rfl ‹_› hp hrun).allowedCalls_eq_zero hlate)
    rw [not_lt] at hlate
    have hgain := tokens_le_add key hrate hclock
    have hrest := mul_nonneg hrate (sub_nonneg.2 hlate)
    have htake := tokens_allow key hp
    rw [rate_allow] at ih
    rw [allowedCalls_cons]
    dsimp only
    split_ifs with hcounts
    · obtain ⟨hok, rfl, -⟩ := hcounts
      rw [if_pos ⟨hok, rfl⟩] at htake
      right
      rcases ih hrate hlate with hnone | hle
      · have hone := one_le_tokens hok
        rw [hnone]
        push_cast
        linarith
      · push_cast
        linarith
    · refine (ih hrate hlate).imp (fun hnone => by rw [hnone]) fun hle => ?_
      have hle' : (l.allow order key' now).2.tokens key now ≤ l.tokens key now := by
        split at htake <;> linarith
      push_cast
      linarith

/-- **The rate limit.**  As long as only buckets are dropped that are full again, no identity is
allowed more than `burst + rate * t` calls in a time `t`. -/
theorem allowed_le {rate burst : ℕ} {time : ℚ} {answers : List Answer}
    (h : Run DropsFull (newRequestRateLimiter rate burst) time answers) (key : GoString)
    (start : ℚ) {t : ℚ} (ht : 0 ≤ t) :
    (allowedCalls key start (start + t) answers : ℚ) ≤ burst + rate * t := by
  have hgain : (0 : ℚ) ≤ rate * t := mul_nonneg rate.cast_nonneg ht
  obtain ⟨l, hl, hrate, hburst⟩ : ∃ l, l = newRequestRateLimiter rate burst ∧ l.rate = rate ∧
      l.burst = burst := ⟨_, rfl, rfl, rfl⟩
  rw [← hl] at h
  clear hl
  induction h with
  | nil =>
    rw [show allowedCalls key start (start + t) [] = 0 from rfl, Nat.cast_zero]
    exact add_nonneg burst.cast_nonneg hgain
  | @call l time order answers key' now hclock horder hp hrun ih =>
    by_cases hearly : now < start
    · rw [allowedCalls_cons, if_neg fun hand => hearly.not_ge hand.2.2.1]
      exact ih (rate_allow.trans hrate) (burst_allow.trans hburst)
    by_cases hlate : start + t < now
    · rw [(Run.call _ _ le_rfl horder hp hrun).allowedCalls_eq_zero hlate, Nat.cast_zero]
      exact add_nonneg burst.cast_nonneg hgain
    rw [not_lt] at hearly hlate
    rcases (Run.call _ _ le_rfl horder hp hrun).allowedCalls_le_tokens
      (hrate ▸ rate.cast_nonneg) hlate key start with hnone | hle
    · rw [hnone, Nat.cast_zero]
      exact add_nonneg burst.cast_nonneg hgain
    · have hfull := tokens_le_burst l key now
      have hlost := mul_nonneg (hrate ▸ rate.cast_nonneg : 0 ≤ l.rate) (sub_nonneg.2 hearly)
      rw [hrate] at hle hlost
      rw [hburst] at hfull
      linarith

/-! ### A crowd of visitors -/

/-- The `n`-th visitor's identity. -/
def visitor (n : ℕ) : GoString := List.replicate (n + 1) 0

/-- The first of `n` visitors has spent its token at the time 0. -/
structure Crowded (l : RequestRateLimiter) (n : ℕ) : Prop where
  rate : l.rate = 1
  burst : l.burst = 1
  size : l.buckets.size = n
  first : l.buckets.get (visitor 0) = some ⟨0, 0⟩
  known : ∀ k b, l.buckets.get k = some b → k.length ≤ n ∧ 0 ≤ b.last

/-- A new identity is allowed its first call. -/
lemma allow_new (h : l.buckets.get key = none) (hburst : l.burst = 1) :
    l.allow order key now = ((true, 0), { l with
      buckets := (if maximumRateLimitIdentities ≤ l.buckets.size then
        l.buckets.delete (oldestKey order now) else l.buckets).set key ⟨0, now⟩ }) := by
  simp [allow, tokens, hburst, GoMap.has, h]

lemma Run.earlier (h : Run p l now answers) (htime : time ≤ now) : Run p l time answers := by
  cases h with
  | nil => exact .nil
  | call key now hclock horder hp hrun => exact .call key now (htime.trans hclock) horder hp hrun

lemma allow_first : (newRequestRateLimiter 1 1).allow [] (visitor 0) 0 = ((true, 0),
    { newRequestRateLimiter 1 1 with buckets := GoMap.empty.set (visitor 0) ⟨0, 0⟩ }) :=
  allow_new (get_empty _) Nat.cast_one

lemma crowded_first : Crowded ((newRequestRateLimiter 1 1).allow [] (visitor 0) 0).2 1 := by
  rw [allow_first]
  constructor
  · exact Nat.cast_one
  · exact Nat.cast_one
  · rfl
  · exact get_set_self _ _ _
  · intro k b hb
    obtain ⟨rfl, rfl⟩ : visitor 0 = k ∧ _ = b := by simpa [get_set, eq_comm] using hb
    exact ⟨le_rfl, le_rfl⟩

namespace Crowded

variable {n : ℕ}

lemma oldest (h : Crowded l n) (now : ℚ) :
    ∃ order, order.Perm l.buckets.toList ∧ oldestKey order now = visitor 0 := by
  obtain ⟨s, t, heq⟩ := append_of_mem (mem_toList.2 h.first)
  refine ⟨(visitor 0, ⟨0, 0⟩) :: (s ++ t), heq ▸ perm_middle.symm, ?_⟩
  -- the loop starts with the first visitor and finds no one older
  refine congrArg Prod.fst (foldlRecOn (motive := (· = (visitor 0, 0))) (s ++ t) _
    (if_pos (.inl rfl)) ?_)
  rintro _ rfl e he
  have hmem : e ∈ l.buckets.toList := heq ▸ perm_middle.mem_iff.2 (.tail _ he)
  exact if_neg (by simpa [visitor] using (h.known e.1 e.2 (mem_toList.1 hmem)).2)

lemma get_visitor (h : Crowded l n) : l.buckets.get (visitor n) = none := by
  refine Option.eq_none_iff_forall_ne_some.2 fun b hb => ?_
  have hle := (h.known _ b hb).1
  rw [visitor, length_replicate] at hle
  omega

lemma visitor_ne (h : Crowded l n) : visitor 0 ≠ visitor n := by
  intro heq
  simpa [heq, h.get_visitor] using h.first

lemma allow (h : Crowded l n) (hn : n < maximumRateLimitIdentities) :
    Crowded (l.allow order (visitor n) (1 / 2)).2 (n + 1) := by
  rw [allow_new h.get_visitor h.burst, if_neg (h.size ▸ hn.not_ge)]
  constructor
  · exact h.rate
  · exact h.burst
  · simp [size_set, GoMap.has, h.get_visitor, h.size]
  · exact (get_set_of_ne _ _ h.visitor_ne).trans h.first
  · intro k b hb
    rw [get_set] at hb
    split_ifs at hb with heq
    · rw [← Option.some.inj hb, heq]
      exact ⟨length_replicate.le, by norm_num⟩
    · exact (h.known k b hb).imp_left Nat.le_succ_of_le

/-- Visitors come until there is no room for another bucket. -/
lemma fill {m : ℕ} (h : Crowded l n) (hn : n + m = maximumRateLimitIdentities)
    (htime : time ≤ 1 / 2) (hp : ∀ l order key now,
      l.buckets.size < maximumRateLimitIdentities → p l order key now) :
    ∃ l', Crowded l' maximumRateLimitIdentities ∧ ∀ answers, Run p l' (1 / 2) answers →
      Run p l time ((range' n m).map (⟨visitor ·, 1 / 2, true⟩) ++ answers) := by
  induction m generalizing l n time with
  | zero => exact ⟨l, hn ▸ h, fun _ hrun => hrun.earlier htime⟩
  | succ m ih =>
    have hlt : n < maximumRateLimitIdentities := by omega
    have hnext : Crowded (l.allow l.buckets.toList (visitor n) (1 / 2)).2 (n + 1) := h.allow hlt
    obtain ⟨l', hl', hcont⟩ := ih hnext (by omega) le_rfl
    refine ⟨l', hl', fun answers hrun => ?_⟩
    have hcall := Run.call (visitor n) (1 / 2) htime (.refl _) (hp l _ _ _ (h.size.trans_lt hlt))
      (hcont answers hrun)
    rwa [allow_new h.get_visitor h.burst] at hcall

end Crowded

/-- The theorem for one visitor more than there are buckets: the last one comes when the bucket of
the first is full again, and takes its place. -/
theorem allowed_le_crowd : ∃ answers,
    answers.map Answer.key = (range (maximumRateLimitIdentities + 1)).map visitor ∧
    Run DropsFull (newRequestRateLimiter 1 1) 0 answers ∧
    (allowedCalls (visitor 0) 0 (0 + 1) answers : ℚ) ≤ (1 : ℕ) + (1 : ℕ) * 1 := by
  obtain ⟨l, hl, hfill⟩ := crowded_first.fill (p := DropsFull) (m := 4095) rfl
    (by norm_num : (0 : ℚ) ≤ 1 / 2) fun _ _ _ _ hlt _ hle => absurd hle hlt.not_ge
  obtain ⟨order, horder, holdest⟩ := hl.oldest 1
  have hfull : l.DropsFull order (visitor maximumRateLimitIdentities) 1 := by
    intro _ _
    simp [holdest, tokens, hl.first, hl.rate, hl.burst]
  have hrun : Run DropsFull (newRequestRateLimiter 1 1) 0 _ :=
    .call (visitor 0) 0 le_rfl (.refl []) (fun _ h => absurd h (by decide))
      (hfill _ (.call _ 1 (by norm_num) horder hfull .nil))
  refine ⟨_, ?_, hrun, allowed_le hrun (visitor 0) 0 zero_le_one⟩
  have hrange : range (maximumRateLimitIdentities + 1) =
      0 :: (range' 1 4095 ++ [maximumRateLimitIdentities]) := by
    rw [range_succ, range_eq_range']
    rfl
  simp [hrange]

/-- With one token a second an identity is allowed two calls in half a second: between them 4096
others come, and its bucket is dropped. -/
theorem flooded_identity_exceeds : ∃ answers,
    Run (fun _ _ _ _ => True) (newRequestRateLimiter 1 1) 0 answers ∧
    ((1 : ℕ) + (1 : ℕ) * (1 / 2) : ℚ) < allowedCalls (visitor 0) 0 (0 + 1 / 2) answers := by
  obtain ⟨l, hl, hfill⟩ := crowded_first.fill (p := fun _ _ _ _ => True) (m := 4095) rfl
    (by norm_num : (0 : ℚ) ≤ 1 / 2) fun _ _ _ _ _ => trivial
  -- one more visitor takes the place of the first, which comes back with a full bucket
  obtain ⟨order, horder, holdest⟩ := hl.oldest (1 / 2)
  have hback : (l.allow order (visitor maximumRateLimitIdentities) (1 / 2)).2.buckets.get
      (visitor 0) = none := by
    rw [allow_new hl.get_visitor hl.burst, if_pos hl.size.ge, holdest]
    exact (get_set_of_ne _ _ hl.visitor_ne).trans (get_delete_self _ _)
  refine ⟨_, .call (visitor 0) 0 le_rfl (.refl []) trivial (hfill _ (.call
    (visitor maximumRateLimitIdentities) (1 / 2) le_rfl horder trivial
      (.call (visitor 0) (1 / 2) le_rfl (.refl _) trivial .nil))), ?_⟩
  rw [allowedCalls_cons, allowedCalls_append, allowedCalls_cons, allowedCalls_cons,
    allow_new hback (burst_allow.trans hl.burst), if_pos ⟨rfl, rfl, by norm_num⟩,
    if_neg fun h => hl.visitor_ne h.2.1.symm, allow_first, if_pos ⟨rfl, rfl, by norm_num⟩]
  have htwo : ((1 : ℕ) + (1 : ℕ) * (1 / 2) : ℚ) < (2 : ℕ) := by norm_num
  exact htwo.trans_le (Nat.cast_le.2 (by omega))

end GideonDB.Api
