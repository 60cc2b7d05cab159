/-
Two ways to recognise a vault.

The wallet and the staker match a script against a template, which reads instructions; the rule
for coinstakes cuts two slices out of the bytes.  Both agree on the scripts that
`CreateStakingVaultScript` builds.  A key hash that is pushed with `OP_PUSHDATA1`, `2` or `4` is
the same to the template and not to the bytes, and no other script makes a difference.
-/
import Divi.Proofs.Templates
import Divi.Proofs.VaultRewards

namespace Divi

open List Option

variable {o v : valtype} {script : CScript} {view : CCoinsViewCache} {inputs : List CTxIn}
  {scan final : VaultScan} {solutions : List valtype} {opcode1 opcode2 : opcodetype} {input : CTxIn}

/-! ### By bytes -/

theorem length_createStakingVaultScript (ho : o.length = 20) (hv : v.length = 20) :
    (createStakingVaultScript o v).length = 50 := by
  simp [createStakingVaultScript_eq ho hv, ho, hv, vaultTail]

/-- Cutting a piece out of a script between two others. -/
theorem replaceKeyHash_append {before cut after : CScript} {first last : Nat}
    (hfst : before.length = first) (hl : before.length + cut.length = last) :
    replaceKeyHash (before ++ cut ++ after) first last = before ++ [OP_PUBKEYHASH] ++ after := by
  have hlen : (before ++ cut).length = last := by rw [length_append, hl]
  unfold replaceKeyHash
  rw [drop_left' hlen, append_assoc before cut, take_left' hfst]

theorem isStakingVaultScript_createStakingVaultScript (ho : o.length = 20) (hv : v.length = 20) :
    isStakingVaultScript (createStakingVaultScript o v) = true := by
  have hscr : createStakingVaultScript o v =
      (OP_IF :: 0x14 :: (o ++ [OP_ELSE, OP_REQUIRE_COINSTAKE])) ++ (0x14 :: v) ++
        OP_ENDIF :: vaultTail := by
    simp [createStakingVaultScript_eq ho hv]
  have hsnd : replaceKeyHash (createStakingVaultScript o v) 24 45 =
      [OP_IF] ++ (0x14 :: o) ++
        OP_ELSE :: OP_REQUIRE_COINSTAKE :: OP_PUBKEYHASH :: OP_ENDIF :: vaultTail := by
    rw [hscr, replaceKeyHash_append (by simp [ho]) (by simp [ho, hv])]
    simp
  have hfst : replaceKeyHash (replaceKeyHash (createStakingVaultScript o v) 24 45) 1 22 =
      getStakingVaultScriptTemplate := by
    rw [hsnd, replaceKeyHash_append (by simp) (by simp [ho])]
    rfl
  have hownerSize : (createStakingVaultScript o v)[1]? = some 0x14 := by
    rw [createStakingVaultScript_eq ho hv]
    rfl
  have hmanagerSize : (createStakingVaultScript o v)[24]? = some 0x14 := by
    rw [hscr, append_assoc, List.getElem?_append_right (by simp [ho])]
    simp [ho]
  unfold isStakingVaultScript
  rw [if_neg (by rw [length_createStakingVaultScript ho hv]; decide)]
  simp [hfst, hownerSize, hmanagerSize]

theorem exists_append_of_le_length {α : Type*} {n : Nat} {l : List α} (h : n ≤ l.length) :
    ∃ a b, a.length = n ∧ l = a ++ b :=
  ⟨l.take n, l.drop n, length_take_of_le h, (take_append_drop n l).symm⟩

/-- The bytes around the key hashes are those of the template. -/
theorem eq_createStakingVaultScript (h : isStakingVaultScript script = true) :
    ∃ o v, o.length = 20 ∧ v.length = 20 ∧ script = createStakingVaultScript o v := by
  unfold isStakingVaultScript at h
  split at h
  next => cases h
  next hsize =>
    have hlen : script.length = 50 := not_not.mp hsize
    simp only [Bool.and_eq_true, beq_iff_eq] at h
    obtain ⟨hcopy, how, hmgr⟩ := h
    -- the script falls into the parts that are cut out and the parts that stay
    obtain ⟨a, rest1, ha, rfl⟩ := exists_append_of_le_length (n := 1) (l := script) (by omega)
    rw [length_append] at hlen
    obtain ⟨x, rest2, hx, rfl⟩ := exists_append_of_le_length (n := 21) (l := rest1) (by omega)
    rw [length_append] at hlen
    obtain ⟨b, rest3, hb, rfl⟩ := exists_append_of_le_length (n := 2) (l := rest2) (by omega)
    rw [length_append] at hlen
    obtain ⟨y, c, hy, rfl⟩ := exists_append_of_le_length (n := 21) (l := rest3) (by omega)
    have hp : replaceKeyHash (replaceKeyHash (a ++ (x ++ (b ++ (y ++ c)))) 24 45) 1 22 =
        a ++ [OP_PUBKEYHASH] ++ (b ++ [OP_PUBKEYHASH] ++ c) := by
      have hsnd : replaceKeyHash (a ++ (x ++ (b ++ (y ++ c)))) 24 45 =
          a ++ x ++ (b ++ [OP_PUBKEYHASH] ++ c) := by
        have hcut := @replaceKeyHash_append (a ++ x ++ b) y c 24 45
          (by simp [ha, hx, hb]) (by simp [ha, hx, hb, hy])
        simpa using hcut
      rw [hsnd, replaceKeyHash_append ha (by omega)]
    rw [hp] at hcopy
    obtain ⟨first, rfl⟩ := length_eq_one_iff.mp ha
    obtain ⟨size1, o, rfl⟩ := exists_cons_of_length_eq_add_one hx
    obtain ⟨else_, require, rfl⟩ := length_eq_two.mp hb
    obtain ⟨size2, v, rfl⟩ := exists_cons_of_length_eq_add_one hy
    have ho : o.length = 20 := Nat.succ_injective hx
    have hv : v.length = 20 := Nat.succ_injective hy
    have hsize1 : size1 = 0x14 := by simpa using how
    have hsize2 : size2 = 0x14 := by simpa [List.getElem?_append_right, ho] using hmgr
    have hby : first = OP_IF ∧ else_ = OP_ELSE ∧ require = OP_REQUIRE_COINSTAKE ∧
        c = OP_ENDIF :: vaultTail := by
      simpa [getStakingVaultScriptTemplate, vaultTail] using hcopy
    obtain ⟨rfl, rfl, rfl, rfl⟩ := hby
    refine ⟨o, v, ho, hv, ?_⟩
    rw [createStakingVaultScript_eq ho hv, hsize1, hsize2]
    rfl

theorem getStakingVaultPubkeyHashes_createStakingVaultScript (ho : o.length = 20)
    (hv : v.length = 20) :
    getStakingVaultPubkeyHashes (createStakingVaultScript o v) = some (o, v) := by
  unfold getStakingVaultPubkeyHashes
  rw [if_pos (isStakingVaultScript_createStakingVaultScript ho hv),
    createStakingVaultScript_eq ho hv]
  have hpre : (OP_IF :: 0x14 :: (o ++ [OP_ELSE, OP_REQUIRE_COINSTAKE, 0x14])).length = 25 := by
    simp [ho]
  have hmgr : (OP_IF :: 0x14 :: (o ++ OP_ELSE :: OP_REQUIRE_COINSTAKE :: 0x14 ::
      (v ++ OP_ENDIF :: vaultTail))).drop 25 = v ++ OP_ENDIF :: vaultTail := by
    have hcut : (OP_IF :: 0x14 :: (o ++ [OP_ELSE, OP_REQUIRE_COINSTAKE, 0x14]) ++
        (v ++ OP_ENDIF :: vaultTail)).drop 25 = v ++ OP_ENDIF :: vaultTail :=
      drop_left' hpre
    simpa using hcut
  rw [hmgr, take_left' hv, drop_succ_cons, drop_succ_cons, drop_zero, take_left' ho]

theorem getStakingVaultPubkeyHashes_iff :
    (isStakingVaultScript script = true ∧ getStakingVaultPubkeyHashes script = some (o, v)) ↔
      o.length = 20 ∧ v.length = 20 ∧ script = createStakingVaultScript o v := by
  constructor
  · rintro ⟨hva, hhs⟩
    obtain ⟨o', v', ho, hv, rfl⟩ := eq_createStakingVaultScript hva
    rw [getStakingVaultPubkeyHashes_createStakingVaultScript ho hv] at hhs
    cases hhs
    exact ⟨ho, hv, rfl⟩
  · rintro ⟨ho, hv, hscr⟩
    rw [hscr]
    exact ⟨isStakingVaultScript_createStakingVaultScript ho hv,
      getStakingVaultPubkeyHashes_createStakingVaultScript ho hv⟩

/-! ### By the template -/

/-- A vault script with its key hashes pushed in some way. -/
def vaultWith (opcode1 : opcodetype) (o : valtype) (opcode2 : opcodetype) (v : valtype) : CScript :=
  OP_IF :: (CScript.pushWith opcode1 o ++ OP_ELSE :: OP_REQUIRE_COINSTAKE ::
    (CScript.pushWith opcode2 v ++ OP_ENDIF :: vaultTail))

theorem vaultWith_direct (ho : o.length = 20) (hv : v.length = 20) :
    vaultWith 0x14 o 0x14 v = createStakingVaultScript o v := by
  rw [createStakingVaultScript_eq ho hv]
  rfl

theorem vaultWith_of_matchTemplate {fuel : Nat}
    (h : matchTemplate fuel script getStakingVaultScriptTemplate [] = some solutions) :
    ∃ opcode1 o opcode2 v, o.length = 20 ∧ v.length = 20 ∧ CScript.CanPush opcode1 20 ∧
      CScript.CanPush opcode2 20 ∧ script = vaultWith opcode1 o opcode2 v ∧
      solutions = [o, v] := by
  obtain ⟨_, _, rfl, h1⟩ := matchTemplate_plain (by decide) h
  obtain ⟨_, opcode1, o, _, ho, hcan1, rfl, h2⟩ := matchTemplate_pubkeyhash h1
  obtain ⟨_, _, rfl, h3⟩ := matchTemplate_plain (by decide) h2
  obtain ⟨_, _, rfl, h4⟩ := matchTemplate_plain (by decide) h3
  obtain ⟨_, opcode2, v, _, hv, hcan2, rfl, h5⟩ := matchTemplate_pubkeyhash h4
  obtain ⟨_, _, rfl, h6⟩ := matchTemplate_plain (by decide) h5
  obtain ⟨_, _, rfl, h7⟩ := matchTemplate_plain (by decide) h6
  obtain ⟨_, _, rfl, h8⟩ := matchTemplate_plain (by decide) h7
  obtain ⟨_, _, rfl, h9⟩ := matchTemplate_plain (by decide) h8
  obtain ⟨_, _, rfl, h10⟩ := matchTemplate_plain (by decide) h9
  obtain ⟨rfl, rfl⟩ := matchTemplate_nil h10
  exact ⟨opcode1, o, opcode2, v, ho, hv, hcan1, hcan2, rfl, rfl⟩

theorem extract_vaultWith (ho : o.length = 20) (hv : v.length = 20)
    (hcan1 : CScript.CanPush opcode1 20) (hcan2 : CScript.CanPush opcode2 20) :
    extractScriptPubKeyFormat (vaultWith opcode1 o opcode2 v) = some (.TX_VAULT, [o, v]) := by
  have hscriptHash : CScript.isPayToScriptHash (vaultWith opcode1 o opcode2 v) = false :=
    isPayToScriptHash_cons (by decide) _
  have hmeta : (some OP_IF == some OP_META) = false := by decide
  have hkey : matchTemplate ((vaultWith opcode1 o opcode2 v).length + 1)
      (vaultWith opcode1 o opcode2 v) [OP_PUBKEY, OP_CHECKSIG] [] = none :=
    matchTemplate_of_opcode (by decide) (by decide) (by decide) (by decide) _ _ _ _
  have hh : matchTemplate ((vaultWith opcode1 o opcode2 v).length + 1)
      (vaultWith opcode1 o opcode2 v)
      [OP_DUP, OP_HASH160, OP_PUBKEYHASH, OP_EQUALVERIFY, OP_CHECKSIG] [] = none :=
    matchTemplate_of_opcode (by decide) (by decide) (by decide) (by decide) _ _ _ _
  have hva : matchTemplate ((vaultWith opcode1 o opcode2 v).length + 1)
      (vaultWith opcode1 o opcode2 v) getStakingVaultScriptTemplate [] = some [o, v] := by
    obtain ⟨fuel, hfuel⟩ : ∃ fuel, (vaultWith opcode1 o opcode2 v).length + 1 = fuel + 11 := by
      refine ⟨(vaultWith opcode1 o opcode2 v).length - 10, ?_⟩
      simp only [vaultWith, CScript.pushWith, vaultTail, length_cons, length_append]
      omega
    have how := CScript.length_pushWith_le opcode1 o
    have hmgr := CScript.length_pushWith_le opcode2 v
    rw [hfuel, vaultWith, getStakingVaultScriptTemplate, matchTemplate_step_plain (by decide),
      matchTemplate_step_pubkeyhash ho hcan1 (by simp [vaultTail]; omega),
      matchTemplate_step_plain (by decide), matchTemplate_step_plain (by decide),
      matchTemplate_step_pubkeyhash hv hcan2 (by simp [vaultTail]; omega),
      matchTemplate_step_plain (by decide), vaultTail, matchTemplate_step_plain (by decide),
      matchTemplate_step_plain (by decide), matchTemplate_step_plain (by decide),
      matchTemplate_step_plain (by decide)]
    rfl
  have hnull : ((vaultWith opcode1 o opcode2 v).head? == some OP_META &&
      CScript.isPushOnly (vaultWith opcode1 o opcode2 v).tail) = false := by
    rw [vaultWith, List.head?_cons, hmeta, Bool.false_and]
  rw [extractScriptPubKeyFormat, hscriptHash, if_neg Bool.false_ne_true, hnull,
    if_neg Bool.false_ne_true, mTemplates, scanTemplates, hkey, scanTemplates, hh, scanTemplates,
    hva]
  rfl

/-- What the template recognises: vaults, with their key hashes pushed in any way. -/
theorem extract_vault_iff :
    extractScriptPubKeyFormat script = some (.TX_VAULT, solutions) ↔
      ∃ opcode1 o opcode2 v, o.length = 20 ∧ v.length = 20 ∧ CScript.CanPush opcode1 20 ∧
        CScript.CanPush opcode2 20 ∧ script = vaultWith opcode1 o opcode2 v ∧
        solutions = [o, v] := by
  constructor
  · intro h
    obtain ⟨template, htmpl, hm, -⟩ := template_of_extract h (by decide)
    have hva : template = getStakingVaultScriptTemplate := by simpa [mTemplates] using htmpl
    rw [hva] at hm
    exact vaultWith_of_matchTemplate hm
  · intro ⟨opcode1, o, opcode2, v, ho, hv, hcan1, hcan2, hscr, hsols⟩
    rw [hscr, hsols]
    exact extract_vaultWith ho hv hcan1 hcan2

/-! ### The rule for coinstakes -/

/-- One input: its value is added, and a vault is the vault of the scan from then on. -/
theorem scanVaultInputs_cons (h : scanVaultInputs view (input :: inputs) scan = some (some final)) :
    ∃ out next, view.getOutputFor input = some out ∧
      scanVaultInputs view inputs next = some (some final) ∧
      next.nValueIn = scan.nValueIn + out.nValue ∧
      (∀ vault, scan.vaultScript = some vault → next.vaultScript = some vault) ∧
      (isStakingVaultScript out.scriptPubKey = true →
        next.vaultScript = some out.scriptPubKey) := by
  obtain ⟨out, hout, h⟩ := bind_eq_some_iff.mp h
  dsimp only at h
  split at h
  next hnot =>
    refine ⟨out, _, hout, h, rfl, fun vault hf => hf, fun hv => ?_⟩
    rw [hv] at hnot
    cases hnot
  next =>
    split at h
    next vault hf =>
      split at h
      next => cases h
      next hs =>
        refine ⟨out, _, hout, h, rfl, fun vault hf => hf, fun _ => ?_⟩
        rw [hf, not_not.mp hs]
    next hn =>
      refine ⟨out, _, hout, h, rfl, fun vault hf => ?_, fun _ => rfl⟩
      rw [hn] at hf
      cases hf

theorem scanVaultInputs_keeps {vault : CScript} (hf : scan.vaultScript = some vault)
    (h : scanVaultInputs view inputs scan = some (some final)) :
    final.vaultScript = some vault := by
  induction inputs generalizing scan with
  | nil =>
    obtain rfl := Option.some.inj (Option.some.inj h)
    exact hf
  | cons input inputs ih =>
    obtain ⟨out, next, -, hr, -, hkeep, -⟩ := scanVaultInputs_cons h
    exact ih (hkeep vault hf) hr

/-- The scan goes through all inputs, adds up their values and finds every vault. -/
theorem scanVaultInputs_all (h : scanVaultInputs view inputs scan = some (some final)) :
    ∃ outs, inputs.mapM view.getOutputFor = some outs ∧
      final.nValueIn = scan.nValueIn + (outs.map CTxOut.nValue).sum ∧
      ∀ input ∈ inputs, ∀ out, view.getOutputFor input = some out →
        isStakingVaultScript out.scriptPubKey = true →
        final.vaultScript = some out.scriptPubKey := by
  induction inputs generalizing scan with
  | nil =>
    obtain rfl := Option.some.inj (Option.some.inj h)
    exact ⟨[], rfl, by simp, by simp⟩
  | cons input inputs ih =>
    obtain ⟨out, next, hout, hr, hva, -, hv⟩ := scanVaultInputs_cons h
    obtain ⟨outs, houts, hsum, hall⟩ := ih hr
    refine ⟨out :: outs, by simp [hout, houts], ?_, ?_⟩
    · rw [hsum, hva, map_cons, sum_cons, Int.add_assoc]
    · intro other ho out' hout' hv'
      obtain rfl | hl := mem_cons.mp ho
      · obtain rfl := Option.some.inj (hout.symm.trans hout')
        exact scanVaultInputs_keeps (hv hv') hr
      · exact hall other hl out' hout' hv'

/-- The second output, and the third where it counts, return the inputs and the staking reward to
a script. -/
def ReturnsStakeTo (vault : CScript) (tx : CTransaction) (rewards : CBlockRewards)
    (view : CCoinsViewCache) : Prop :=
  ∃ marker rewardOut after spent, tx.vout = marker :: rewardOut :: after ∧
    rewardOut.scriptPubKey = vault ∧ tx.vin.mapM view.getOutputFor = some spent ∧
    (spent.map CTxOut.nValue).sum + rewards.nStakeReward ≤ vaultOutput vault rewardOut after

theorem returnsStakeTo_of_checkCoinstakeForVaults {tx : CTransaction} {rewards : CBlockRewards}
    {out : CTxOut} (hs : tx.isCoinStake = true) (hi : input ∈ tx.vin)
    (hout : view.getOutputFor input = some out) (hv : isStakingVaultScript out.scriptPubKey = true)
    (h : checkCoinstakeForVaults tx rewards view = some true) :
    ReturnsStakeTo out.scriptPubKey tx rewards view := by
  unfold checkCoinstakeForVaults at h
  rw [hs] at h
  obtain ⟨scanned, hscan, h⟩ := bind_eq_some_iff.mp h
  split at h
  next => cases h
  next scan =>
    obtain ⟨spent, hsp, hsum, hall⟩ := scanVaultInputs_all hscan
    rw [hall input hi out hout hv] at h
    dsimp only at h
    split at h
    next marker rewardOut after hvout =>
      split at h
      next => cases h
      next hscr =>
        refine ⟨marker, rewardOut, after, spent, hvout, not_not.mp hscr, hsp, ?_⟩
        have hbd : ¬ vaultOutput out.scriptPubKey rewardOut after <
            scan.nValueIn + rewards.nStakeReward := by simpa using h
        rw [hsum] at hbd
        simpa using hbd
    next => cases h

/-! ### Agreement -/

/-- The recognisers agree on a script, and where the staker sees a vault in it the rule applies. -/
structure VaultRecognisersAgree (script : CScript) : Prop where
  template : ∀ o v, extractScriptPubKeyFormat script = some (.TX_VAULT, [o, v]) ↔
    isStakingVaultScript script = true ∧ getStakingVaultPubkeyHashes script = some (o, v)
  bytes : ∀ o v,
    (isStakingVaultScript script = true ∧ getStakingVaultPubkeyHashes script = some (o, v)) ↔
      o.length = 20 ∧ v.length = 20 ∧ script = createStakingVaultScript o v
  rule : ∀ solutions tx rewards view input out,
    extractScriptPubKeyFormat script = some (.TX_VAULT, solutions) →
    tx.isCoinStake = true → input ∈ tx.vin → view.getOutputFor input = some out →
    out.scriptPubKey = script → checkCoinstakeForVaults tx rewards view = some true →
    ReturnsStakeTo script tx rewards view

/-- A vault whose key hashes are pushed with the opcode that is their length. -/
def PushesHashesDirectly (script : CScript) : Prop :=
  ∀ opcode1 o opcode2 v, o.length = 20 → v.length = 20 → CScript.CanPush opcode1 20 →
    CScript.CanPush opcode2 20 → script = vaultWith opcode1 o opcode2 v →
    opcode1 = 0x14 ∧ opcode2 = 0x14

theorem vaultWith_opcodes (h : vaultWith opcode1 o opcode2 v = vaultWith 0x14 o 0x14 v) :
    opcode1 = 0x14 ∧ opcode2 = 0x14 := by
  have hfst : opcode1 = 0x14 := by
    have hsecondByte := congrArg (fun script => script[1]?) h
    exact Option.some.inj hsecondByte
  rw [hfst] at h
  have hr := append_cancel_left (List.cons.inj h).2
  have hpush := (List.cons.inj (List.cons.inj hr).2).2
  exact ⟨hfst, (List.cons.inj hpush).1⟩

/-- **Both recognisers agree on a script unless it is a vault that pushes a key hash with
`OP_PUSHDATA1`, `2` or `4`.** -/
theorem vault_recognisers_agree_iff (script : CScript) :
    VaultRecognisersAgree script ↔ PushesHashesDirectly script := by
  constructor
  · intro ha opcode1 o opcode2 v ho hv hcan1 hcan2 hscr
    have hext : extractScriptPubKeyFormat script = some (.TX_VAULT, [o, v]) :=
      extract_vault_iff.mpr ⟨opcode1, o, opcode2, v, ho, hv, hcan1, hcan2, hscr, rfl⟩
    obtain ⟨-, -, hc⟩ := (ha.bytes o v).mp ((ha.template o v).mp hext)
    rw [hscr, ← vaultWith_direct ho hv] at hc
    exact vaultWith_opcodes hc
  · intro hdir
    have hc : ∀ {solutions}, extractScriptPubKeyFormat script = some (.TX_VAULT, solutions) →
        ∃ o v, o.length = 20 ∧ v.length = 20 ∧ script = createStakingVaultScript o v ∧
          solutions = [o, v] := by
      intro solutions hext
      obtain ⟨opcode1, o, opcode2, v, ho, hv, hcan1, hcan2, hscr, hsols⟩ :=
        extract_vault_iff.mp hext
      obtain ⟨rfl, rfl⟩ := hdir opcode1 o opcode2 v ho hv hcan1 hcan2 hscr
      exact ⟨o, v, ho, hv, hscr.trans (vaultWith_direct ho hv), hsols⟩
    refine ⟨?_, fun o v => getStakingVaultPubkeyHashes_iff, ?_⟩
    · intro o v
      rw [getStakingVaultPubkeyHashes_iff]
      constructor
      · intro hext
        obtain ⟨o', v', ho, hv, hscr, hsols⟩ := hc hext
        obtain ⟨rfl, rfl⟩ : o = o' ∧ v = v' := by simpa using hsols
        exact ⟨ho, hv, hscr⟩
      · rintro ⟨ho, hv, hscr⟩
        rw [hscr, ← vaultWith_direct ho hv]
        exact extract_vaultWith ho hv (by decide) (by decide)
    · intro solutions tx rewards view input out hext hs hi hout hpays hchk
      obtain ⟨o, v, ho, hv, hscr, -⟩ := hc hext
      rw [← hpays] at hscr ⊢
      refine returnsStakeTo_of_checkCoinstakeForVaults hs hi hout ?_ hchk
      rw [hscr]
      exact isStakingVaultScript_createStakingVaultScript ho hv

/-- A vault with the hash of its owner behind `OP_PUSHDATA1`. -/
def longPushVault : CScript :=
  vaultWith OP_PUSHDATA1 (List.replicate 20 1) 0x14 (List.replicate 20 2)

/-- The template sees a vault and the bytes do not, so that a coinstake may pay the stake away. -/
theorem vault_recognisers_differ :
    extractScriptPubKeyFormat longPushVault =
        some (.TX_VAULT, [List.replicate 20 1, List.replicate 20 2]) ∧
      isStakingVaultScript longPushVault = false ∧
      getStakingVaultPubkeyHashes longPushVault = none ∧
      (stakeTx [⟨100 * COIN, [OP_1]⟩]).isCoinStake = true ∧
      checkCoinstakeForVaults (stakeTx [⟨100 * COIN, [OP_1]⟩]) ⟨0, 0, 0, 0, 0, 0⟩
        (stakeView (100 * COIN) longPushVault) = some true := by
  decide

end Divi
