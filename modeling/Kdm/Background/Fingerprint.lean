import Kdm.Background.Render
import Kdm.Lib.Decimal

/-!
# The name of a cached image

`fingerprint` of `bgsettings.cpp` and `cacheFileName` of `bgrender.cpp`: the size, and a text of the
settings with `:` and `/` replaced.

Principal result: `cacheFileName_inj`.  Two names are equal only if the sizes are, and all that the text
has; the wallpapers may differ in the characters that are replaced.
-/

namespace Kdm.Background.Render

open WallpaperMode BackgroundMode BlendMode MinOptDepth Decimal

abbrev Text := List Char

/-! ## The text -/

def BackgroundMode.value : BackgroundMode → Int
  | Flat => 0
  | Pattern => 1
  | Program => 2
  | HorizontalGradient => 3
  | VerticalGradient => 4
  | PyramidGradient => 5
  | PipeCrossGradient => 6
  | EllipticGradient => 7

def wallpaperValue : WallpaperMode → Int
  | NoWallpaper => 0
  | Centred => 1
  | Tiled => 2
  | CenterTiled => 3
  | CentredMaxpect => 4
  | TiledMaxpect => 5
  | Scaled => 6
  | CentredAutoFit => 7
  | ScaleAndCrop => 8

def BlendMode.value : BlendMode → Int
  | NoBlending => 0
  | FlatBlending => 1
  | HorizontalBlending => 2
  | VerticalBlending => 3
  | PyramidBlending => 4
  | PipeCrossBlending => 5
  | EllipticBlending => 6
  | IntensityBlending => 7
  | SaturateBlending => 8
  | ContrastBlending => 9
  | HueShiftBlending => 10

def MinOptDepth.value : MinOptDepth → Int
  | AlwaysOpt => 0
  | Opt16bpp => 1
  | Opt15bpp => 2
  | NeverOpt => 3

def flag (b : Bool) : Char := if b then '1' else '0'

/-- One character of `BGHash`; the shift of `g` keeps its sign. -/
def hashStep (h : BitVec 32) (c : UInt16) : BitVec 32 :=
  let h := (h <<< 4) + BitVec.ofNat 32 (c.toNat % 256)
  let g := h &&& 0xf0000000#32
  (if g = 0 then h else h ^^^ g.sshiftRight 24) &&& ~~~ g

def BGHash (key : QString) : Int := (key.foldl hashStep 0).toInt

def rgb (color : QRgb) : Text := dec color.toNat

/-- The part of the background. -/
def backgroundText (s : Renderer) : Text :=
  match s.backgroundMode with
  | Flat => "ca:".toList ++ rgb s.colorA ++ ";".toList
  | Program => "pr:".toList ++ dec s.programHash ++ ";".toList
  | Pattern =>
    "ca:".toList ++ rgb s.colorA ++ ";cb:".toList ++ rgb s.colorB ++ ";pt:".toList ++
      dec (BGHash s.patternFile) ++ ";".toList
  | _ => "ca:".toList ++ rgb s.colorA ++ ";cb:".toList ++ rgb s.colorB ++ ";".toList

def wallpaperText (W : World) (s : Renderer) : Text :=
  if s.wallpaperMode = NoWallpaper then []
  else
    "wp:".toList ++ (currentWallpaper s).toList ++ ":".toList ++
      dec (W.calcResourceHash (currentWallpaper s)).toNat ++ ";".toList

def blendText (s : Renderer) : Text :=
  if s.blendMode = NoBlending then []
  else "blb:".toList ++ dec s.blendBalance ++ ";rbl:".toList ++ [flag s.reverseBlending] ++ ";".toList

def fingerprint (W : World) (s : Renderer) : Text :=
  "bm:".toList ++ dec s.backgroundMode.value ++ ";en:".toList ++ [flag s.enabled] ++ backgroundText s ++
    "wm:".toList ++ dec (wallpaperValue s.wallpaperMode) ++ ";".toList ++ wallpaperText W s ++
    "blm:".toList ++ dec s.blendMode.value ++ ";".toList ++ blendText s ++ [flag s.shm] ++
    dec s.minOptimizationDepth.value

/-- Characters that should not be in file names. -/
def replace (c : Char) : Char := if c = ':' then '_' else if c = '/' then '#' else c

/-- `cacheFileName`, below the place of the cache. -/
def cacheFileName (W : World) (s : Renderer) : Text :=
  "background/".toList ++ dec s.size.width ++ "x".toList ++ dec s.size.height ++ "_".toList ++
    (fingerprint W s).map replace ++ ".png".toList

/-! ## Reading it back -/

variable {W W' : World} {s s' : Renderer} {t t' : Text}

theorem replace_dec (n : Int) : (dec n).map replace = dec n := by
  refine map_dec (fun c hc => ?_) n
  obtain rfl | hd := hc
  · rfl
  · have h1 : c ≠ ':' := by rintro rfl; cases hd
    have h2 : c ≠ '/' := by rintro rfl; cases hd
    unfold replace
    rw [if_neg h1, if_neg h2]

theorem replace_flag (b : Bool) : replace (flag b) = flag b := by
  cases b <;> rfl

theorem flag_inj {b b' : Bool} (h : flag b = flag b') : b = b' := by
  cases b <;> cases b' <;> first | rfl | cases h

/-- The part of the blending, as it is in the name. -/
def blendPart (mode : BlendMode) (balance : Int) (rev : Bool) : Text :=
  if mode = NoBlending then []
  else "blb_".toList ++ (dec balance ++ ';' :: ("rbl_".toList ++ [flag rev, ';']))

/-- What follows a wallpaper in the name. -/
def afterName (rh : Int) (mode : BlendMode) (balance : Int) (rev : Bool) (rest : Text) : Text :=
  '_' :: (dec rh ++ ';' :: ("blm_".toList ++ (dec mode.value ++ ';' ::
    (blendPart mode balance rev ++ rest))))

theorem blendText_replaced (s : Renderer) :
    (blendText s).map replace = blendPart s.blendMode s.blendBalance s.reverseBlending := by
  unfold blendText blendPart
  split
  · rfl
  · simp [replace_dec, replace]
    exact replace_flag _

theorem fingerprint_replaced (W : World) (s : Renderer) : (fingerprint W s).map replace =
    "bm_".toList ++ (dec s.backgroundMode.value ++ ';' :: ("en_".toList ++ flag s.enabled ::
      ((backgroundText s).map replace ++ ("wm_".toList ++ (dec (wallpaperValue s.wallpaperMode) ++
        ';' :: ((wallpaperText W s).map replace ++ ("blm_".toList ++ (dec s.blendMode.value ++
          ';' :: (blendPart s.blendMode s.blendBalance s.reverseBlending ++ flag s.shm ::
            dec s.minOptimizationDepth.value))))))))) := by
  rw [← blendText_replaced]
  unfold fingerprint
  simp [replace_dec, replace]
  exact ⟨replace_flag _, replace_flag _⟩

theorem wallpaperText_replaced (h : s.wallpaperMode ≠ NoWallpaper) :
    (wallpaperText W s).map replace ++ t = "wp_".toList ++ ((currentWallpaper s).toList.map replace ++
      '_' :: (dec (W.calcResourceHash (currentWallpaper s)).toNat ++ ';' :: t)) := by
  unfold wallpaperText
  rw [if_neg h]
  simp [replace_dec, replace]

theorem BlendMode.value_inj {m m' : BlendMode} (h : m.value = m'.value) : m = m' := by
  cases m <;> cases m' <;> first | rfl | cases h

theorem BackgroundMode.value_inj {m m' : BackgroundMode} (h : m.value = m'.value) : m = m' := by
  cases m <;> cases m' <;> first | rfl | cases h

theorem wallpaperValue_inj {m m' : WallpaperMode} (h : wallpaperValue m = wallpaperValue m') : m = m' := by
  cases m <;> cases m' <;> first | rfl | cases h

theorem MinOptDepth.value_inj {m m' : MinOptDepth} (h : m.value = m'.value) : m = m' := by
  cases m <;> cases m' <;> first | rfl | cases h

theorem ends_semicolon : Ends ';' := by decide

theorem ends_underscore : Ends '_' := by decide

/-- The wallpaper is told from what follows it, read from the end. -/
theorem name_inj {N N' rest rest' : Text} {rh rh' bal bal' : Int} {mode mode' : BlendMode}
    {rev rev' : Bool} (hr : ';' ∉ rest) (hr' : ';' ∉ rest')
    (h : N ++ afterName rh mode bal rev rest = N' ++ afterName rh' mode' bal' rev' rest') :
    N = N' ∧ rh = rh' ∧ mode = mode' ∧ (mode ≠ NoBlending → bal = bal' ∧ rev = rev') ∧
      rest = rest' := by
  have hflag (b : Bool) : '_' ∉ [flag b] := by cases b <;> decide
  -- up to the blending
  have hstem {M M' : Text} {r r' v v' : Int}
      (he : M ++ '_' :: dec r ++ ";blm".toList ++ '_' :: dec v =
        M' ++ '_' :: dec r' ++ ";blm".toList ++ '_' :: dec v') : M = M' ∧ r = r' ∧ v = v' := by
    obtain ⟨he, hv⟩ := append_dec_inj ends_underscore he
    obtain ⟨hM, hr⟩ := append_dec_inj ends_underscore (List.append_cancel_right he)
    exact ⟨hM, hr, hv⟩
  unfold afterName blendPart at h
  by_cases hm : mode = NoBlending <;> by_cases hm' : mode' = NoBlending
  · rw [if_pos hm, if_pos hm'] at h
    have h : (N ++ '_' :: dec rh ++ ";blm".toList ++ '_' :: dec mode.value) ++ ';' :: rest =
        (N' ++ '_' :: dec rh' ++ ";blm".toList ++ '_' :: dec mode'.value) ++ ';' :: rest' := by
      simpa using h
    obtain ⟨h, hrest⟩ := Lines.append_cons_inj_last hr hr' h
    obtain ⟨hN, hrh, -⟩ := hstem h
    exact ⟨hN, hrh, hm.trans hm'.symm, fun hne => absurd hm hne, hrest⟩
  · rw [if_pos hm, if_neg hm'] at h
    have h : (N ++ '_' :: dec rh ++ ";bl".toList ++ ['m'] ++ '_' :: dec mode.value) ++ ';' :: rest =
        (N' ++ '_' :: dec rh' ++ ";blm".toList ++ '_' :: dec mode'.value ++ ";blb_".toList ++
          dec bal' ++ ";rb".toList ++ ['l'] ++ '_' :: [flag rev']) ++ ';' :: rest' := by
      simpa using h
    obtain ⟨h, -⟩ := Lines.append_cons_inj_last hr hr' h
    obtain ⟨h, -⟩ := Lines.append_cons_inj_last (ends_underscore.not_mem _) (hflag _) h
    exact absurd (List.append_inj_right' h rfl) (by decide)
  · rw [if_neg hm, if_pos hm'] at h
    have h : (N ++ '_' :: dec rh ++ ";blm".toList ++ '_' :: dec mode.value ++ ";blb_".toList ++
          dec bal ++ ";rb".toList ++ ['l'] ++ '_' :: [flag rev]) ++ ';' :: rest =
        (N' ++ '_' :: dec rh' ++ ";bl".toList ++ ['m'] ++ '_' :: dec mode'.value) ++ ';' :: rest' := by
      simpa using h
    obtain ⟨h, -⟩ := Lines.append_cons_inj_last hr hr' h
    obtain ⟨h, -⟩ := Lines.append_cons_inj_last (hflag _) (ends_underscore.not_mem _) h
    exact absurd (List.append_inj_right' h rfl) (by decide)
  · rw [if_neg hm, if_neg hm'] at h
    have h : ((N ++ '_' :: dec rh ++ ";blm".toList ++ '_' :: dec mode.value) ++ ";blb".toList ++
          '_' :: dec bal ++ ";rbl".toList ++ '_' :: [flag rev]) ++ ';' :: rest =
        ((N' ++ '_' :: dec rh' ++ ";blm".toList ++ '_' :: dec mode'.value) ++ ";blb".toList ++
          '_' :: dec bal' ++ ";rbl".toList ++ '_' :: [flag rev']) ++ ';' :: rest' := by
      simpa using h
    obtain ⟨h, hrest⟩ := Lines.append_cons_inj_last hr hr' h
    obtain ⟨h, hrev⟩ := Lines.append_cons_inj_last (hflag _) (hflag _) h
    obtain ⟨h, hbal⟩ := append_dec_inj ends_underscore (List.append_cancel_right h)
    obtain ⟨hN, hrh, hv⟩ := hstem (List.append_cancel_right h)
    exact ⟨hN, hrh, BlendMode.value_inj hv,
      fun _ => ⟨hbal, flag_inj (List.singleton_inj.mp hrev)⟩, hrest⟩

theorem rgb_inj {a b : QRgb} (h : (a.toNat : Int) = b.toNat) : a = b :=
  BitVec.eq_of_toNat_eq (Int.ofNat.inj h)

theorem colors_inj {a b a' b' : Int}
    (h : dec a ++ ';' :: ("cb_".toList ++ (dec b ++ ';' :: t)) =
      dec a' ++ ';' :: ("cb_".toList ++ (dec b' ++ ';' :: t'))) : a = a' ∧ b = b' ∧ t = t' := by
  obtain ⟨ha, h⟩ := dec_append_inj ends_semicolon h
  obtain ⟨hb, h⟩ := dec_append_inj ends_semicolon (List.append_cancel_left h)
  exact ⟨ha, hb, h⟩

/-- The background is told from what follows it, for one mode; the pattern only by its hash. -/
theorem background_inj (hm : s.backgroundMode = s'.backgroundMode)
    (h : (backgroundText s).map replace ++ t = (backgroundText s').map replace ++ t') :
    (s.backgroundMode ≠ Program → s.colorA = s'.colorA) ∧
      (s.backgroundMode ≠ Flat → s.backgroundMode ≠ Program → s.colorB = s'.colorB) ∧ t = t' := by
  have htwo (he : dec s.colorA.toNat ++ ';' :: ("cb_".toList ++ (dec s.colorB.toNat ++ ';' :: t)) =
      dec s'.colorA.toNat ++ ';' :: ("cb_".toList ++ (dec s'.colorB.toNat ++ ';' :: t'))) :
      s.colorA = s'.colorA ∧ s.colorB = s'.colorB ∧ t = t' := by
    obtain ⟨ha, hb, ht⟩ := colors_inj he
    exact ⟨rgb_inj ha, rgb_inj hb, ht⟩
  unfold backgroundText rgb at h
  rw [← hm] at h
  cases hmode : s.backgroundMode with
  | Flat =>
    rw [hmode] at h
    have h : dec s.colorA.toNat ++ ';' :: t = dec s'.colorA.toNat ++ ';' :: t' := by
      simpa [replace_dec, replace] using h
    obtain ⟨ha, ht⟩ := dec_append_inj ends_semicolon h
    exact ⟨fun _ => rgb_inj ha, fun hne => absurd rfl hne, ht⟩
  | Pattern =>
    rw [hmode] at h
    have h : dec s.colorA.toNat ++ ';' :: ("cb_".toList ++ (dec s.colorB.toNat ++ ';' ::
          ("pt_".toList ++ (dec (BGHash s.patternFile) ++ ';' :: t)))) =
        dec s'.colorA.toNat ++ ';' :: ("cb_".toList ++ (dec s'.colorB.toNat ++ ';' ::
          ("pt_".toList ++ (dec (BGHash s'.patternFile) ++ ';' :: t')))) := by
      simpa [replace_dec, replace] using h
    obtain ⟨ha, hb, h⟩ := colors_inj h
    obtain ⟨-, ht⟩ := dec_append_inj ends_semicolon (List.append_cancel_left h)
    exact ⟨fun _ => rgb_inj ha, fun _ _ => rgb_inj hb, ht⟩
  | Program =>
    rw [hmode] at h
    have h : dec s.programHash ++ ';' :: t = dec s'.programHash ++ ';' :: t' := by
      simpa [replace_dec, replace] using h
    obtain ⟨-, ht⟩ := dec_append_inj ends_semicolon h
    exact ⟨fun hne => absurd rfl hne, fun _ hne => absurd rfl hne, ht⟩
  | HorizontalGradient | VerticalGradient | PyramidGradient | PipeCrossGradient | EllipticGradient =>
    rw [hmode] at h
    obtain ⟨ha, hb, ht⟩ := htwo (by simpa [replace_dec, replace] using h)
    exact ⟨fun _ => ha, fun _ _ => hb, ht⟩

/-- What two settings have in common when their images have one name. -/
structure SameName (W W' : World) (s s' : Renderer) : Prop where
  size : s.size = s'.size
  backgroundMode : s.backgroundMode = s'.backgroundMode
  colorA : s.backgroundMode ≠ Program → s.colorA = s'.colorA
  colorB : s.backgroundMode ≠ Flat → s.backgroundMode ≠ Program → s.colorB = s'.colorB
  wallpaperMode : s.wallpaperMode = s'.wallpaperMode
  name : (currentWallpaper s).toList.map replace = (currentWallpaper s').toList.map replace
  hash : W.calcResourceHash (currentWallpaper s) = W'.calcResourceHash (currentWallpaper s')
  blendMode : s.blendMode = s'.blendMode
  blending : s.blendMode ≠ NoBlending →
    s.blendBalance = s'.blendBalance ∧ s.reverseBlending = s'.reverseBlending
  minOptimizationDepth : s.minOptimizationDepth = s'.minOptimizationDepth

/-- **The name of a cached image**, for settings with a wallpaper. -/
theorem cacheFileName_inj (hw : s.wallpaperMode ≠ NoWallpaper)
    (h : cacheFileName W s = cacheFileName W' s') : SameName W W' s s' := by
  have hpng (b : Bool) (m : MinOptDepth) : ';' ∉ flag b :: (dec m.value ++ ".png".toList) := by
    cases b <;> cases m <;> decide
  unfold cacheFileName at h
  rw [fingerprint_replaced, fingerprint_replaced] at h
  simp only [List.append_assoc, List.cons_append] at h
  obtain ⟨hwidth, h⟩ := dec_append_inj (by decide : Ends 'x') (List.append_cancel_left h)
  obtain ⟨hheight, h⟩ := dec_append_inj ends_underscore h
  obtain ⟨hbm, h⟩ := dec_append_inj ends_semicolon (List.append_cancel_left h)
  have hbm := BackgroundMode.value_inj hbm
  obtain ⟨ha, hb, h⟩ := background_inj hbm (List.cons.inj (List.append_cancel_left h)).2
  obtain ⟨hwm, h⟩ := dec_append_inj ends_semicolon (List.append_cancel_left h)
  have hwm := wallpaperValue_inj hwm
  rw [wallpaperText_replaced hw, wallpaperText_replaced (hwm ▸ hw)] at h
  obtain ⟨hN, hrh, hbl, hblend, hrest⟩ := name_inj (hpng _ _) (hpng _ _) (List.append_cancel_left h)
  have hopt := dec_inj (List.append_cancel_right (List.cons.inj hrest).2)
  have hsize : s.size = s'.size := congrArg₂ Size.mk hwidth hheight
  exact ⟨hsize, hbm, ha, hb, hwm, hN, rgb_inj hrh, hbl, hblend, MinOptDepth.value_inj hopt⟩

end Kdm.Background.Render
