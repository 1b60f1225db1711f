/-
# The disassembler

`shell/disassm.c`.  An instruction has 2, 4 or 6 bytes, as its first byte says.  That byte
is the index into the table `l1`; where the entry is a table again, a part of another byte is the
index into it.  The format of the entry says which bytes the operands are taken from.

`daSnprintf` gives, with the text, the places of the bytes it has read
(`daSnprintf_congr`: it depends on no others); they are bytes of the instruction
(`disassm_reads`).
-/

import Mathlib.Tactic

namespace Hvf

/-- **The formats of instructions** (`enum inst_fmt`), each with its own way to print the
operands; an entry of the kind `IF_VAR` leads to another table. -/
inductive InstFmt
  | inv | e | i | ri1 | ri2 | rie | ril1 | ril2 | ris | rr | rrMask | rre | rrf1 | rrf2 | rrf3 |
  rrr | rrs | rs1 | rs2 | rsi | rsl | rsy1 | rsy2 | rx | rxMask | rxe | rxf | rxy | s | si | sil |
  siy | ss1 | ss2 | ss3 | ss4 | ss5 | sse | ssf | diag
deriving DecidableEq, Repr

/-- `struct disassm_instruction`: an instruction, or the next table with the length and the
place of its index in bits. -/
inductive DaEntry
  | inst (fmt : InstFmt) (name : String)
  | table (sub : ℕ → DaEntry) (len loc : ℕ)

/-! ### The tables -/

/-- Instructions by their second byte: opcode 01. -/
def l201 : List (ℕ × InstFmt × String) :=
  [(0x01, .e, "PR"), (0x02, .e, "UPT"), (0x04, .e, "PTFF"), (0x07, .e, "SCKPF"), (0x0A, .e, "PFPO"),
   (0x0B, .e, "TAM"), (0x0C, .e, "SAM24"), (0x0D, .e, "SAM31"), (0x0E, .e, "SAM64"),
   (0xFF, .e, "TRAP2")]

/-- Instructions by the low half of their second byte: opcode A5. -/
def l2A5 : List (ℕ × InstFmt × String) :=
  [(0x0, .ri1, "IIHH"), (0x1, .ri1, "IIHL"), (0x2, .ri1, "IILH"), (0x3, .ri1, "IILL"),
   (0x4, .ri1, "NIHH"), (0x5, .ri1, "NIHL"), (0x6, .ri1, "NILH"), (0x7, .ri1, "NILL"),
   (0x8, .ri1, "OIHH"), (0x9, .ri1, "OIHL"), (0xA, .ri1, "OILH"), (0xB, .ri1, "OILL"),
   (0xC, .ri1, "LLIHH"), (0xD, .ri1, "LLIHL"), (0xE, .ri1, "LLILH"), (0xF, .ri1, "LLILL")]

/-- Instructions by the low half of their second byte: opcode A7. -/
def l2A7 : List (ℕ × InstFmt × String) :=
  [(0x0, .ri1, "TMLH"), (0x1, .ri1, "TMLL"), (0x2, .ri1, "TMHH"), (0x3, .ri1, "TMHL"),
   (0x4, .ri2, "BRC"), (0x5, .ri1, "BRAS"), (0x6, .ri1, "BRCT"), (0x7, .ri1, "BRCTG"),
   (0x8, .ri1, "LHI"), (0x9, .ri1, "LGHI"), (0xA, .ri1, "AHI"), (0xB, .ri1, "AGHI"),
   (0xC, .ri1, "MHI"), (0xD, .ri1, "MGHI"), (0xE, .ri1, "CHI"), (0xF, .ri1, "CGHI")]

/-- Instructions by their second byte: opcode B2. -/
def l2B2 : List (ℕ × InstFmt × String) :=
  [(0x02, .s, "STIDP"), (0x04, .s, "SCK"), (0x05, .s, "STCK"), (0x06, .s, "SCKC"),
   (0x07, .s, "STCKC"), (0x08, .s, "SPT"), (0x09, .s, "STPT"), (0x0A, .s, "SPKA"),
   (0x0B, .s, "IPK"), (0x0D, .s, "PTLB"), (0x10, .s, "SPX"), (0x11, .s, "STPX"), (0x12, .s, "STAP"),
   (0x14, .s, "SIE"), (0x18, .s, "PC"), (0x19, .s, "SAC"), (0x1A, .s, "CFC"), (0x21, .rre, "IPTE"),
   (0x22, .rre, "IPM"), (0x23, .rre, "IVSK"), (0x24, .rre, "IAC"), (0x25, .rre, "SSAR"),
   (0x26, .rre, "EPAR"), (0x27, .rre, "ESAR"), (0x28, .rre, "PT"), (0x29, .rre, "ISKE"),
   (0x2A, .rre, "RRBE"), (0x2B, .rrf2, "SSKE"), (0x2C, .rre, "TB"), (0x2D, .rre, "DXR"),
   (0x2E, .rre, "PGIN"), (0x2F, .rre, "PGOUT"), (0x30, .s, "CSCH"), (0x31, .s, "HSCH"),
   (0x32, .s, "MSCH"), (0x33, .s, "SSCH"), (0x34, .s, "STSCH"), (0x35, .s, "TSCH"),
   (0x36, .s, "TPI"), (0x37, .s, "SAL"), (0x38, .s, "RSCH"), (0x39, .s, "STCRW"),
   (0x3A, .s, "STCPS"), (0x3B, .s, "RCHP"), (0x3D, .s, "SCHM"), (0x40, .rre, "BAKR"),
   (0x41, .rre, "CKSM"), (0x44, .rre, "SQDR"), (0x45, .rre, "SQER"), (0x46, .rre, "STURA"),
   (0x47, .rre, "MSTA"), (0x48, .rre, "PALB"), (0x49, .rre, "EREG"), (0x4A, .rre, "ESTA"),
   (0x4B, .rre, "LURA"), (0x4C, .rre, "TAR"), (0x4D, .rre, "CPYA"), (0x4E, .rre, "SAR"),
   (0x4F, .rre, "EAR"), (0x50, .rre, "CSP"), (0x52, .rre, "MSR"), (0x54, .rre, "MVPG"),
   (0x55, .rre, "MVST"), (0x57, .rre, "CUSE"), (0x58, .rre, "BSG"), (0x5A, .rre, "BSA"),
   (0x5D, .rre, "CLST"), (0x5E, .rre, "SRST"), (0x63, .rre, "CMPSC"), (0x76, .s, "XSCH"),
   (0x77, .s, "RP"), (0x78, .s, "STCKE"), (0x79, .s, "SACF"), (0x7C, .s, "STCKF"),
   (0x7D, .s, "STSI"), (0x99, .s, "SRNM"), (0x9C, .s, "STFPC"), (0x9D, .s, "LFPC"),
   (0xA5, .rre, "TRE"), (0xA6, .rrf2, "CUUTF"), (0xA7, .rrf2, "CUTFU"), (0xB0, .s, "STFLE"),
   (0xB1, .s, "STFL"), (0xB2, .s, "LPSWE"), (0xB9, .s, "SRNMT"), (0xBD, .s, "LFAS"),
   (0xFF, .s, "TRAP4")]

/-- Instructions by their second byte: opcode B3. -/
def l2B3 : List (ℕ × InstFmt × String) :=
  [(0x00, .rre, "LPEBR"), (0x01, .rre, "LNEBR"), (0x02, .rre, "LTEBR"), (0x03, .rre, "LCEBR"),
   (0x04, .rre, "LDEBR"), (0x05, .rre, "LXDBR"), (0x06, .rre, "LXEBR"), (0x07, .rre, "MXDBR"),
   (0x08, .rre, "KEBR"), (0x09, .rre, "CEBR"), (0x0A, .rre, "AEBR"), (0x0B, .rre, "SEBR"),
   (0x0C, .rre, "MDEBR"), (0x0D, .rre, "DEBR"), (0x0E, .rrf1, "MAEBR"), (0x0F, .rrf1, "MSEBR"),
   (0x10, .rre, "LPDBR"), (0x11, .rre, "LNDBR"), (0x12, .rre, "LTDBR"), (0x13, .rre, "LCDBR"),
   (0x14, .rre, "SQEBR"), (0x15, .rre, "SQDBR"), (0x16, .rre, "SQXBR"), (0x17, .rre, "MEEBR"),
   (0x18, .rre, "KDBR"), (0x19, .rre, "CDBR"), (0x1A, .rre, "ADBR"), (0x1B, .rre, "SDBR"),
   (0x1C, .rre, "MDBR"), (0x1D, .rre, "DDBR"), (0x1E, .rrf1, "MADBR"), (0x1F, .rrf1, "MSDBR"),
   (0x24, .rre, "LDER"), (0x25, .rre, "LXDR"), (0x26, .rre, "LXER"), (0x2E, .rrf1, "MAER"),
   (0x2F, .rrf1, "MSER"), (0x36, .rre, "SQXR"), (0x37, .rre, "MEER"), (0x38, .rrf1, "MAYLR"),
   (0x39, .rrf1, "MYLR"), (0x3A, .rrf1, "MAYR"), (0x3B, .rrf1, "MYR"), (0x3C, .rrf1, "MAYHR"),
   (0x3D, .rrf1, "MYHR"), (0x3E, .rrf1, "MADR"), (0x3F, .rrf1, "MSDR"), (0x40, .rre, "LPXBR"),
   (0x41, .rre, "LNXBR"), (0x42, .rre, "LTXBR"), (0x43, .rre, "LCXBR"), (0x44, .rre, "LEDBR"),
   (0x45, .rre, "LDXBR"), (0x46, .rre, "LEXBR"), (0x47, .rrf2, "FIXBR"), (0x48, .rre, "KXBR"),
   (0x49, .rre, "CXBR"), (0x4A, .rre, "AXBR"), (0x4B, .rre, "SXBR"), (0x4C, .rre, "MXBR"),
   (0x4D, .rre, "DXBR"), (0x50, .rrf2, "TBEDR"), (0x51, .rrf2, "TBDR"), (0x53, .rrf3, "DIEBR"),
   (0x57, .rrf2, "FIEBR"), (0x58, .rre, "THDER"), (0x59, .rre, "THDR"), (0x5B, .rrf3, "DIDBR"),
   (0x5F, .rrf2, "FIDBR"), (0x60, .rre, "LPXR"), (0x61, .rre, "LNXR"), (0x62, .rre, "LTXR"),
   (0x63, .rre, "LCXR"), (0x65, .rre, "LXR"), (0x66, .rre, "LEXR"), (0x67, .rre, "FIXR"),
   (0x69, .rre, "CXR"), (0x70, .rre, "LPDFR"), (0x71, .rre, "LNDFR"), (0x72, .rrf1, "CPSDR"),
   (0x73, .rre, "LCDFR"), (0x74, .rre, "LZER"), (0x75, .rre, "LZDR"), (0x76, .rre, "LZXR"),
   (0x77, .rre, "FIER"), (0x7F, .rre, "FIDR"), (0x84, .rre, "SFPC"), (0x85, .rre, "SFASR"),
   (0x8C, .rre, "EFPC"), (0x94, .rre, "CEFBR"), (0x95, .rre, "CDFBR"), (0x96, .rre, "CXFBR"),
   (0x98, .rrf2, "CFEBR"), (0x99, .rrf2, "CFDBR"), (0x9A, .rrf2, "CFXBR"), (0xA4, .rre, "CEGBR"),
   (0xA5, .rre, "CDGBR"), (0xA6, .rre, "CXGBR"), (0xA8, .rrf2, "CGEBR"), (0xA9, .rrf2, "CGDBR"),
   (0xAA, .rrf2, "CGXBR"), (0xB4, .rre, "CEFR"), (0xB5, .rre, "CDFR"), (0xB6, .rre, "CXFR"),
   (0xB8, .rrf2, "CFER"), (0xB9, .rrf2, "CFDR"), (0xBA, .rrf2, "CFXR"), (0xC1, .rre, "LDGR"),
   (0xC4, .rre, "CEGR"), (0xC5, .rre, "CDGR"), (0xC6, .rre, "CXGR"), (0xC8, .rrf2, "CGER"),
   (0xC9, .rrf2, "CGDR"), (0xCA, .rrf2, "CGXR"), (0xCD, .rre, "LGDR"), (0xD0, .rrr, "MDTR"),
   (0xD1, .rrr, "DDTR"), (0xD2, .rrr, "ADTR"), (0xD3, .rrr, "SDTR"), (0xD4, .rrf3, "LDETR"),
   (0xD5, .rrf3, "LEDTR"), (0xD6, .rre, "LTDTR"), (0xD7, .rrf3, "FIDTR"), (0xD8, .rrr, "MXTR"),
   (0xD9, .rrr, "DXTR"), (0xDA, .rrr, "AXTR"), (0xDB, .rrr, "SXTR"), (0xDC, .rrf3, "LXDTR"),
   (0xDD, .rrf3, "LDXTR"), (0xDE, .rre, "LTXTR"), (0xDF, .rrf3, "FIXTR"), (0xE0, .rre, "KDTR"),
   (0xE1, .rrf2, "CGDTR"), (0xE2, .rre, "CUDTR"), (0xE3, .rrf3, "CSDTR"), (0xE4, .rre, "CDTR"),
   (0xE5, .rre, "EEDTR"), (0xE7, .rre, "ESDTR"), (0xE8, .rre, "KXTR"), (0xE9, .rrf2, "CGXTR"),
   (0xEA, .rre, "CUXTR"), (0xEB, .rrf3, "CSXTR"), (0xEC, .rre, "CXTR"), (0xED, .rre, "EEXTR"),
   (0xEF, .rre, "ESXTR"), (0xF1, .rre, "CDGTR"), (0xF2, .rre, "CDUTR"), (0xF3, .rre, "CDSTR"),
   (0xF4, .rre, "CEDTR"), (0xF5, .rrf3, "QADTR"), (0xF6, .rrf3, "IEDTR"), (0xF7, .rrf3, "RRDTR"),
   (0xF9, .rre, "CXGTR"), (0xFA, .rre, "CXUTR"), (0xFB, .rre, "CXSTR"), (0xFC, .rre, "CEXTR"),
   (0xFD, .rrf3, "QAXTR"), (0xFE, .rrf3, "IEXTR"), (0xFF, .rrf3, "RRXTR")]

/-- Instructions by their second byte: opcode B9. -/
def l2B9 : List (ℕ × InstFmt × String) :=
  [(0x00, .rre, "LPGR"), (0x01, .rre, "LNGR"), (0x02, .rre, "LTGR"), (0x03, .rre, "LCGR"),
   (0x04, .rre, "LGR"), (0x05, .rre, "LURAG"), (0x06, .rre, "LGBR"), (0x07, .rre, "LGHR"),
   (0x08, .rre, "AGR"), (0x09, .rre, "SGR"), (0x0A, .rre, "ALGR"), (0x0B, .rre, "SLGR"),
   (0x0C, .rre, "MSGR"), (0x0D, .rre, "DSGR"), (0x0E, .rre, "EREGG"), (0x0F, .rre, "LRVGR"),
   (0x10, .rre, "LPGFR"), (0x11, .rre, "LNGFR"), (0x12, .rre, "LTGFR"), (0x13, .rre, "LCGFR"),
   (0x14, .rre, "LGFR"), (0x16, .rre, "LLGFR"), (0x17, .rre, "LLGTR"), (0x18, .rre, "AGFR"),
   (0x19, .rre, "SGFR"), (0x1A, .rre, "ALGFR"), (0x1B, .rre, "SLGFR"), (0x1C, .rre, "MSGFR"),
   (0x1D, .rre, "DSGFR"), (0x1E, .rre, "KMAC"), (0x1F, .rre, "LRVR"), (0x20, .rre, "CGR"),
   (0x21, .rre, "CLGR"), (0x25, .rre, "STURG"), (0x26, .rre, "LBR"), (0x27, .rre, "LHR"),
   (0x2E, .rre, "KM"), (0x2F, .rre, "KMC"), (0x30, .rre, "CGFR"), (0x31, .rre, "CLGFR"),
   (0x3E, .rre, "KIMD"), (0x3F, .rre, "KLMD"), (0x46, .rre, "BCTGR"), (0x60, .rrf2, "CGRT"),
   (0x61, .rrf2, "CLGRT"), (0x72, .rrf2, "CRT"), (0x73, .rrf2, "CLRT"), (0x80, .rre, "NGR"),
   (0x81, .rre, "OGR"), (0x82, .rre, "XGR"), (0x83, .rre, "FLOGR"), (0x84, .rre, "LLGCR"),
   (0x85, .rre, "LLGHR"), (0x86, .rre, "MLGR"), (0x87, .rre, "DLGR"), (0x88, .rre, "ALCGR"),
   (0x89, .rre, "SLBGR"), (0x8A, .rre, "CSPG"), (0x8D, .rre, "EPSW"), (0x8E, .rrf3, "IDTE"),
   (0x90, .rrf2, "TRTT"), (0x91, .rrf2, "TRTO"), (0x92, .rrf2, "TROT"), (0x93, .rrf2, "TROO"),
   (0x94, .rre, "LLCR"), (0x95, .rre, "LLHR"), (0x96, .rre, "MLR"), (0x97, .rre, "DLR"),
   (0x98, .rre, "ALCR"), (0x99, .rre, "SLBR"), (0x9A, .rre, "EPAIR"), (0x9B, .rre, "ESAIR"),
   (0x9D, .rre, "ESEA"), (0x9E, .rre, "PTI"), (0x9F, .rre, "SSAIR"), (0xA2, .rre, "PTF"),
   (0xAA, .rrf3, "LPTEA"), (0xAF, .rre, "PFMF"), (0xB0, .rrf2, "CU14"), (0xB1, .rrf2, "CU24"),
   (0xB2, .rre, "CU41"), (0xB3, .rre, "CU42"), (0xBD, .rrf2, "TRTRE"), (0xBE, .rre, "SRSTU"),
   (0xBF, .rrf2, "TRTE")]

/-- Instructions by the low half of their second byte: opcode C0. -/
def l2C0 : List (ℕ × InstFmt × String) :=
  [(0x0, .ril1, "LARL"), (0x1, .ril1, "LGFI"), (0x4, .ril2, "BRCL"), (0x5, .ril1, "BRASL"),
   (0x6, .ril1, "XIHF"), (0x7, .ril1, "XILF"), (0x8, .ril1, "IIHF"), (0x9, .ril1, "IILF"),
   (0xA, .ril1, "NIHF"), (0xB, .ril1, "NILF"), (0xC, .ril1, "OIHF"), (0xD, .ril1, "OILF"),
   (0xE, .ril1, "LLIHF"), (0xF, .ril1, "LLILF")]

/-- Instructions by the low half of their second byte: opcode C2. -/
def l2C2 : List (ℕ × InstFmt × String) :=
  [(0x0, .ril1, "MSGFI"), (0x1, .ril1, "MSFI"), (0x4, .ril1, "SLGFI"), (0x5, .ril1, "SLFI"),
   (0x8, .ril1, "AGFI"), (0x9, .ril1, "AFI"), (0xA, .ril1, "ALGFI"), (0xB, .ril1, "ALFI"),
   (0xC, .ril1, "CGFI"), (0xD, .ril1, "CFI"), (0xE, .ril1, "CLGFI"), (0xF, .ril1, "CLFI")]

/-- Instructions by the low half of their second byte: opcode C4. -/
def l2C4 : List (ℕ × InstFmt × String) :=
  [(0x2, .ril1, "LLHRL"), (0x4, .ril1, "LGHRL"), (0x5, .ril1, "LHRL"), (0x6, .ril1, "LLGHRL"),
   (0x7, .ril1, "STHRL"), (0x8, .ril1, "LGRL"), (0xB, .ril1, "STGRL"), (0xC, .ril1, "LGFRL"),
   (0xD, .ril1, "LRL"), (0xE, .ril1, "LLGFRL"), (0xF, .ril1, "STRL")]

/-- Instructions by the low half of their second byte: opcode C6. -/
def l2C6 : List (ℕ × InstFmt × String) :=
  [(0x0, .ril1, "EXRL"), (0x2, .ril2, "PFDRL"), (0x4, .ril1, "CGHRL"), (0x5, .ril1, "CHRL"),
   (0x6, .ril1, "CLGHRL"), (0x7, .ril1, "CLHRL"), (0x8, .ril1, "CGRL"), (0xA, .ril1, "CLGRL"),
   (0xC, .ril1, "CGFRL"), (0xD, .ril1, "CRL"), (0xE, .ril1, "CLGFRL"), (0xF, .ril1, "CLRL")]

/-- Instructions by the low half of their second byte: opcode C8. -/
def l2C8 : List (ℕ × InstFmt × String) :=
  [(0x0, .ssf, "MVCOS"), (0x1, .ssf, "ECTG"), (0x2, .ssf, "CSST")]

/-- Instructions by their last byte: opcode E3. -/
def l2E3 : List (ℕ × InstFmt × String) :=
  [(0x02, .rxy, "LTG"), (0x03, .rxy, "LRAG"), (0x04, .rxy, "LG"), (0x06, .rxy, "CVBY"),
   (0x08, .rxy, "AG"), (0x09, .rxy, "SG"), (0x0A, .rxy, "ALG"), (0x0B, .rxy, "SLG"),
   (0x0C, .rxy, "MSG"), (0x0D, .rxy, "DSG"), (0x0E, .rxy, "CVBG"), (0x0F, .rxy, "LRVG"),
   (0x12, .rxy, "LT"), (0x13, .rxy, "LRAY"), (0x14, .rxy, "LGF"), (0x15, .rxy, "LGH"),
   (0x16, .rxy, "LLGF"), (0x17, .rxy, "LLGT"), (0x18, .rxy, "AGF"), (0x19, .rxy, "SGF"),
   (0x1A, .rxy, "ALGF"), (0x1B, .rxy, "SLGF"), (0x1C, .rxy, "MSGF"), (0x1D, .rxy, "DSGF"),
   (0x1E, .rxy, "LRV"), (0x1F, .rxy, "LRVH"), (0x20, .rxy, "CG"), (0x21, .rxy, "CLG"),
   (0x24, .rxy, "STG"), (0x26, .rxy, "CVDY"), (0x2E, .rxy, "CVDG"), (0x2F, .rxy, "STRVG"),
   (0x30, .rxy, "CGF"), (0x31, .rxy, "CLGF"), (0x32, .rxy, "LTGF"), (0x34, .rxy, "CGH"),
   (0x36, .rxy, "PFD"), (0x3E, .rxy, "STRV"), (0x3F, .rxy, "STRVH"), (0x46, .rxy, "BCTG"),
   (0x50, .rxy, "STY"), (0x51, .rxy, "MSY"), (0x54, .rxy, "NY"), (0x55, .rxy, "CLY"),
   (0x56, .rxy, "OY"), (0x57, .rxy, "XY"), (0x58, .rxy, "LY"), (0x59, .rxy, "CY"),
   (0x5A, .rxy, "AY"), (0x5B, .rxy, "SY"), (0x5C, .rxy, "MFY"), (0x5E, .rxy, "ALY"),
   (0x5F, .rxy, "SLY"), (0x70, .rxy, "STHY"), (0x71, .rxy, "LAY"), (0x72, .rxy, "STCY"),
   (0x73, .rxy, "ICY"), (0x75, .rxy, "LAEY"), (0x76, .rxy, "LB"), (0x77, .rxy, "LGB"),
   (0x78, .rxy, "LHY"), (0x79, .rxy, "CHY"), (0x7A, .rxy, "AHY"), (0x7B, .rxy, "SHY"),
   (0x7C, .rxy, "MHY"), (0x80, .rxy, "NG"), (0x81, .rxy, "OG"), (0x82, .rxy, "XG"),
   (0x86, .rxy, "MLG"), (0x87, .rxy, "DLG"), (0x88, .rxy, "ALCG"), (0x89, .rxy, "SLBG"),
   (0x8E, .rxy, "STPQ"), (0x8F, .rxy, "LPQ"), (0x90, .rxy, "LLGC"), (0x91, .rxy, "LLGH"),
   (0x94, .rxy, "LLC"), (0x95, .rxy, "LLH"), (0x96, .rxy, "ML"), (0x97, .rxy, "DL"),
   (0x98, .rxy, "ALC"), (0x99, .rxy, "SLB")]

/-- Instructions by their second byte: opcode E5. -/
def l2E5 : List (ℕ × InstFmt × String) :=
  [(0x00, .sse, "LASP"), (0x01, .sse, "TPROT"), (0x02, .sse, "STRAG"), (0x0E, .sse, "MVCSK"),
   (0x0F, .sse, "MVCDK"), (0x44, .sil, "MVHHI"), (0x48, .sil, "MVGHI"), (0x4C, .sil, "MVHI"),
   (0x54, .sil, "CHHSI"), (0x55, .sil, "CLHHSI"), (0x58, .sil, "CGHSI"), (0x59, .sil, "CLGHSI"),
   (0x5C, .sil, "CHSI"), (0x5D, .sil, "CLFHSI")]

/-- Instructions by their last byte: opcode EB. -/
def l2EB : List (ℕ × InstFmt × String) :=
  [(0x04, .rsy1, "LMG"), (0x0A, .rsy1, "SRAG"), (0x0B, .rsy1, "SLAG"), (0x0C, .rsy1, "SRLG"),
   (0x0D, .rsy1, "SLLG"), (0x0F, .rsy1, "TRACG"), (0x14, .rsy1, "CSY"), (0x1C, .rsy1, "RLLG"),
   (0x1D, .rsy1, "RLL"), (0x20, .rsy2, "CLMH"), (0x21, .rsy2, "CLMY"), (0x24, .rsy1, "STMG"),
   (0x25, .rsy1, "STCTG"), (0x26, .rsy1, "STMH"), (0x2C, .rsy2, "STCMH"), (0x2D, .rsy2, "STCMY"),
   (0x2F, .rsy1, "LCTLG"), (0x30, .rsy1, "CSG"), (0x31, .rsy1, "CDSY"), (0x3E, .rsy1, "CDSG"),
   (0x44, .rsy1, "BXHG"), (0x45, .rsy1, "BXLEG"), (0x4C, .rsy1, "ECAG"), (0x51, .siy, "TMY"),
   (0x52, .siy, "MVIY"), (0x54, .siy, "NIY"), (0x55, .siy, "CLIY"), (0x56, .siy, "OIY"),
   (0x57, .siy, "XIY"), (0x6A, .siy, "ASI"), (0x6E, .siy, "ALSI"), (0x80, .rsy2, "ICMH"),
   (0x81, .rsy2, "ICMY"), (0x8E, .rsy1, "MVCLU"), (0x8F, .rsy1, "CLCLU"), (0x90, .rsy1, "STMY"),
   (0x96, .rsy1, "LMH"), (0x98, .rsy1, "LMY"), (0x9A, .rsy1, "LAMY"), (0x9B, .rsy1, "STAMY"),
   (0xC0, .rsl, "TP")]

/-- Instructions by their last byte: opcode EC. -/
def l2EC : List (ℕ × InstFmt × String) :=
  [(0x44, .rie, "BRXHG"), (0x45, .rie, "BRXLG"), (0x54, .rie, "RNSBG"), (0x55, .rie, "RISBG"),
   (0x56, .rie, "ROSBG"), (0x57, .rie, "RXSBG"), (0x64, .rie, "CGRJ"), (0x65, .rie, "CLGRJ"),
   (0x70, .rie, "CGIT"), (0x71, .rie, "CLGIT"), (0x72, .rie, "CIT"), (0x73, .rie, "CLFIT"),
   (0x76, .rie, "CRJ"), (0x77, .rie, "CLRJ"), (0x7C, .rie, "CGIJ"), (0x7D, .rie, "CLGIJ"),
   (0x7E, .rie, "CIJ"), (0x7F, .rie, "CLIJ"), (0xE4, .rrs, "CGRB"), (0xE5, .rrs, "CLGRB"),
   (0xF6, .rrs, "CRB"), (0xF7, .rrs, "CLRB"), (0xFC, .ris, "CGIB"), (0xFD, .ris, "CLGIB")]

/-- Instructions by their last byte: opcode ED. -/
def l2ED : List (ℕ × InstFmt × String) :=
  [(0x04, .rxe, "LDEB"), (0x05, .rxe, "LXDB"), (0x06, .rxe, "LXEB"), (0x07, .rxe, "MXDB"),
   (0x08, .rxe, "KEB"), (0x09, .rxe, "CEB"), (0x0A, .rxe, "AEB"), (0x0B, .rxe, "SEB"),
   (0x0C, .rxe, "MDEB"), (0x0D, .rxe, "DEB"), (0x0E, .rxe, "MAEB"), (0x0F, .rxe, "MSEB"),
   (0x10, .rxe, "TCEB"), (0x11, .rxe, "TCDB"), (0x12, .rxe, "TCXB"), (0x14, .rxe, "SQEB"),
   (0x15, .rxe, "SQDB"), (0x17, .rxe, "MEEB"), (0x18, .rxe, "KDB"), (0x19, .rxe, "CDB"),
   (0x1A, .rxe, "ADB"), (0x1B, .rxe, "SDB"), (0x1C, .rxe, "MDB"), (0x1D, .rxe, "DDB"),
   (0x1E, .rxf, "MADB"), (0x1F, .rxf, "MSDB"), (0x24, .rxe, "LDE"), (0x25, .rxe, "LXD"),
   (0x26, .rxe, "LXE"), (0x2E, .rxf, "MAE"), (0x2F, .rxf, "MSE"), (0x34, .rxe, "SQE"),
   (0x35, .rxe, "SQD"), (0x37, .rxe, "MEE"), (0x38, .rxf, "MAYL"), (0x39, .rxf, "MYL"),
   (0x3A, .rxf, "MAY"), (0x3B, .rxf, "MY"), (0x3C, .rxf, "MAYH"), (0x3D, .rxf, "MYH"),
   (0x3E, .rxf, "MAD"), (0x3F, .rxf, "MSD"), (0x40, .rxf, "SLDT"), (0x41, .rxf, "SRDT"),
   (0x48, .rxf, "SLXT"), (0x49, .rxf, "SRXT"), (0x50, .rxe, "TDCET"), (0x51, .rxe, "TDGET"),
   (0x54, .rxe, "TDCDT"), (0x55, .rxe, "TDGDT"), (0x58, .rxe, "TDCXT"), (0x59, .rxe, "TDGXT"),
   (0x64, .rxy, "LEY"), (0x65, .rxy, "LDY"), (0x66, .rxy, "STEY"), (0x67, .rxy, "STDY")]

/-- The instructions of `l1`. -/
def l1Insts : List (ℕ × InstFmt × String) :=
  [(0x04, .rr, "SPM"), (0x05, .rr, "BALR"), (0x06, .rr, "BCTR"), (0x07, .rrMask, "BCR"),
   (0x0A, .i, "SVC"), (0x0B, .rr, "BSM"), (0x0C, .rr, "BASSM"), (0x0D, .rr, "BASR"),
   (0x0E, .rr, "MVCL"), (0x0F, .rr, "CLCL"), (0x10, .rr, "LPR"), (0x11, .rr, "LNR"),
   (0x12, .rr, "LTR"), (0x13, .rr, "LCR"), (0x14, .rr, "NR"), (0x15, .rr, "CLR"), (0x16, .rr, "OR"),
   (0x17, .rr, "XR"), (0x18, .rr, "LR"), (0x19, .rr, "CR"), (0x1A, .rr, "AR"), (0x1B, .rr, "SR"),
   (0x1C, .rr, "MR"), (0x1D, .rr, "DR"), (0x1E, .rr, "ALR"), (0x1F, .rr, "SLR"),
   (0x20, .rr, "LPDR"), (0x21, .rr, "LNDR"), (0x22, .rr, "LTDR"), (0x23, .rr, "LCDR"),
   (0x24, .rr, "HDR"), (0x25, .rr, "LDXR"), (0x26, .rr, "MXR"), (0x27, .rr, "MXDR"),
   (0x28, .rr, "LDR"), (0x29, .rr, "CDR"), (0x2A, .rr, "ADR"), (0x2B, .rr, "SDR"),
   (0x2C, .rr, "MDR"), (0x2D, .rr, "DDR"), (0x2E, .rr, "AWR"), (0x2F, .rr, "SWR"),
   (0x30, .rr, "LPER"), (0x31, .rr, "LNER"), (0x32, .rr, "LTER"), (0x33, .rr, "LCER"),
   (0x34, .rr, "HER"), (0x35, .rr, "LEDR"), (0x36, .rr, "AXR"), (0x37, .rr, "SXR"),
   (0x38, .rr, "LER"), (0x39, .rr, "CER"), (0x3A, .rr, "AER"), (0x3B, .rr, "SER"),
   (0x3C, .rr, "MDER"), (0x3D, .rr, "DER"), (0x3E, .rr, "AUR"), (0x3F, .rr, "SUR"),
   (0x40, .rx, "STH"), (0x41, .rx, "LA"), (0x42, .rx, "STC"), (0x43, .rx, "IC"), (0x44, .rx, "EX"),
   (0x45, .rx, "BAL"), (0x46, .rx, "BCT"), (0x47, .rxMask, "BC"), (0x48, .rx, "LH"),
   (0x49, .rx, "CH"), (0x4A, .rx, "AH"), (0x4B, .rx, "SH"), (0x4C, .rx, "MH"), (0x4D, .rx, "BAS"),
   (0x4E, .rx, "CVD"), (0x4F, .rx, "CVB"), (0x50, .rx, "ST"), (0x51, .rx, "LAE"), (0x54, .rx, "N"),
   (0x55, .rx, "CL"), (0x56, .rx, "O"), (0x57, .rx, "X"), (0x58, .rx, "L"), (0x59, .rx, "C"),
   (0x5A, .rx, "A"), (0x5B, .rx, "S"), (0x5C, .rx, "M"), (0x5D, .rx, "D"), (0x5E, .rx, "AL"),
   (0x5F, .rx, "SL"), (0x60, .rx, "STD"), (0x67, .rx, "MXD"), (0x68, .rx, "LD"), (0x69, .rx, "CD"),
   (0x6A, .rx, "AD"), (0x6B, .rx, "SD"), (0x6C, .rx, "MD"), (0x6D, .rx, "DD"), (0x6E, .rx, "AW"),
   (0x6F, .rx, "SW"), (0x70, .rx, "STE"), (0x71, .rx, "MS"), (0x78, .rx, "LE"), (0x79, .rx, "CE"),
   (0x7A, .rx, "AE"), (0x7B, .rx, "SE"), (0x7C, .rx, "MDE"), (0x7D, .rx, "DE"), (0x7E, .rx, "AU"),
   (0x7F, .rx, "SU"), (0x80, .s, "SSM"), (0x82, .s, "LPSW"), (0x83, .diag, "DIAG"),
   (0x84, .rsi, "BRXH"), (0x85, .rsi, "BRXLE"), (0x86, .rs1, "BXH"), (0x87, .rs1, "BXLE"),
   (0x88, .rs1, "SRL"), (0x89, .rs1, "SLL"), (0x8A, .rs1, "SRA"), (0x8B, .rs1, "SLA"),
   (0x8C, .rs1, "SRDL"), (0x8D, .rs1, "SLDL"), (0x8E, .rs1, "SRDA"), (0x8F, .rs1, "SLDA"),
   (0x90, .rs1, "STM"), (0x91, .si, "TM"), (0x92, .si, "MVI"), (0x93, .s, "TS"), (0x94, .si, "NI"),
   (0x95, .si, "CLI"), (0x96, .si, "OI"), (0x97, .si, "XI"), (0x98, .rs1, "LM"),
   (0x99, .rs1, "TRACE"), (0x9A, .rs1, "LAM"), (0x9B, .rs1, "STAM"), (0xA8, .rs1, "MVCLE"),
   (0xA9, .rs1, "CLCLE"), (0xAC, .si, "STNSM"), (0xAD, .si, "STOSM"), (0xAE, .rs1, "SIGP"),
   (0xAF, .si, "MC"), (0xB1, .rx, "LRA"), (0xB6, .rs1, "STCTL"), (0xB7, .rs1, "LCTL"),
   (0xBA, .rs1, "CS"), (0xBB, .rs1, "CDS"), (0xBD, .rs2, "CLM"), (0xBE, .rs2, "STCM"),
   (0xBF, .rs2, "ICM"), (0xD0, .ss1, "TRTR"), (0xD1, .ss1, "MVN"), (0xD2, .ss1, "MVC"),
   (0xD3, .ss1, "MVZ"), (0xD4, .ss1, "NC"), (0xD5, .ss1, "CLC"), (0xD6, .ss1, "OC"),
   (0xD7, .ss1, "XC"), (0xD9, .ss4, "MVCK"), (0xDA, .ss4, "MVCP"), (0xDB, .ss4, "MVCS"),
   (0xDC, .ss1, "TR"), (0xDD, .ss1, "TRT"), (0xDE, .ss1, "ED"), (0xDF, .ss1, "EDMK"),
   (0xE1, .ss1, "PKU"), (0xE2, .ss1, "UNPKU"), (0xE8, .ss1, "MVCIN"), (0xE9, .ss1, "PKA"),
   (0xEA, .ss1, "UNPKA"), (0xEE, .ss5, "PLO"), (0xEF, .ss5, "LMD"), (0xF0, .ss3, "SRP"),
   (0xF1, .ss2, "MVO"), (0xF2, .ss2, "PACK"), (0xF3, .ss2, "UNPK"), (0xF8, .ss2, "ZAP"),
   (0xF9, .ss2, "CP"), (0xFA, .ss2, "AP"), (0xFB, .ss2, "SP"), (0xFC, .ss2, "MP"),
   (0xFD, .ss2, "DP")]

/-- The tables that `l1` has: for each the next table, `len` and `loc`. -/
def l1Tables : List (ℕ × List (ℕ × InstFmt × String) × ℕ × ℕ) :=
  [(0x01, l201, 8, 8), (0xA5, l2A5, 4, 12), (0xA7, l2A7, 4, 12), (0xB2, l2B2, 8, 8),
   (0xB3, l2B3, 8, 8), (0xB9, l2B9, 8, 8), (0xC0, l2C0, 4, 12), (0xC2, l2C2, 4, 12),
   (0xC4, l2C4, 4, 12), (0xC6, l2C6, 4, 12), (0xC8, l2C8, 4, 12), (0xE3, l2E3, 8, 40),
   (0xE5, l2E5, 8, 8), (0xEB, l2EB, 8, 40), (0xEC, l2EC, 8, 40), (0xED, l2ED, 8, 40)]

/-- An entry of a table of instructions; the other entries are 0, which is `IF_INV`. -/
def instEntry (insts : List (ℕ × InstFmt × String)) (idx : ℕ) : DaEntry :=
  match insts.lookup idx with
  | some (fmt, name) => .inst fmt name
  | none => .inst .inv ""

/-- `l1`. -/
def l1Entry (idx : ℕ) : DaEntry :=
  match l1Tables.lookup idx with
  | some (sub, len, loc) => .table (instEntry sub) len loc
  | none => instEntry l1Insts idx

/-! ### The text -/

/-- **What is printed of an instruction**: `"??"` for none, the name with the operands, or
the name and `"???"` where the format is not known. -/
inductive DaText
  | invalid
  | inst (fmt : InstFmt) (name : String) (ops : List ℕ)
  | unknown (name : String)
deriving DecidableEq, Repr

section

variable (bytes : ℕ → UInt8)

/-- The two halves of a byte. -/
def hi4 (i : ℕ) : ℕ := (bytes i).toNat / 16

/-- The low half of a byte of the instruction. -/
def lo4 (i : ℕ) : ℕ := (bytes i).toNat % 16

/-- `*((u16*)(bytes+i))`. -/
def halfAt (i : ℕ) : ℕ := 256 * (bytes i).toNat + (bytes (i + 1)).toNat

/-- `*((u16*)(bytes+i)) & 0x0fff`. -/
def dispAt (i : ℕ) : ℕ := halfAt bytes i % 4096

/-- `*((u32*)(bytes+i))`. -/
def fullAt (i : ℕ) : ℕ := 65536 * halfAt bytes i + halfAt bytes (i + 2)

/-- The operands of a format, as they are printed; none for a format that is not known. -/
def fmtOperands : InstFmt → Option (List ℕ)
  | .inv | .e => some []
  | .diag => some [fullAt bytes 0 % 0x1000000]
  | .i => some [(bytes 1).toNat]
  | .ri1 | .ri2 => some [hi4 bytes 1, halfAt bytes 2]
  | .ril1 | .ril2 => some [hi4 bytes 1, fullAt bytes 2]
  | .rr | .rrMask => some [hi4 bytes 1, lo4 bytes 1]
  | .rre => some [hi4 bytes 3, lo4 bytes 3]
  | .rs1 | .rs2 => some [hi4 bytes 1, lo4 bytes 1, dispAt bytes 2, hi4 bytes 2]
  | .rsi => some [hi4 bytes 1, lo4 bytes 1, halfAt bytes 2]
  | .rsy1 | .rsy2 =>
    some [hi4 bytes 1, lo4 bytes 1, dispAt bytes 2 + 4096 * (bytes 4).toNat, hi4 bytes 2]
  | .rx | .rxMask => some [hi4 bytes 1, dispAt bytes 2, lo4 bytes 1, hi4 bytes 2]
  | .rxy => some [hi4 bytes 1, dispAt bytes 2 + 4096 * (bytes 4).toNat, lo4 bytes 1, hi4 bytes 2]
  | .s => some [dispAt bytes 2, hi4 bytes 2]
  | .si => some [dispAt bytes 2, hi4 bytes 2, (bytes 1).toNat]
  | .ss1 => some [dispAt bytes 2, (bytes 1).toNat + 1, hi4 bytes 2, dispAt bytes 4, hi4 bytes 4]
  | .ss2 =>
    some [dispAt bytes 2, hi4 bytes 1 + 1, hi4 bytes 2, dispAt bytes 4, lo4 bytes 1 + 1,
      hi4 bytes 4]
  | .ss3 | .ss4 =>
    some [dispAt bytes 2, hi4 bytes 1 + 1, hi4 bytes 2, dispAt bytes 4, hi4 bytes 4, lo4 bytes 1]
  | .ss5 =>
    some [hi4 bytes 1, lo4 bytes 1, dispAt bytes 2, hi4 bytes 2, dispAt bytes 4, hi4 bytes 4]
  | _ => none

end

/-- The bytes that the operands of a format are taken from. -/
def fmtReads : InstFmt → List ℕ
  | .diag => [0, 1, 2, 3]
  | .i | .rr | .rrMask => [1]
  | .rre => [3]
  | .s => [2, 3]
  | .ri1 | .ri2 | .rs1 | .rs2 | .rsi | .rx | .rxMask | .si => [1, 2, 3]
  | .rsy1 | .rsy2 | .rxy => [1, 2, 3, 4]
  | .ril1 | .ril2 | .ss1 | .ss2 | .ss3 | .ss4 | .ss5 => [1, 2, 3, 4, 5]
  | _ => []

/-- The text of an entry that is an instruction. -/
def instText (bytes : ℕ → UInt8) (fmt : InstFmt) (name : String) : DaText :=
  if fmt = .inv then .invalid
  else
    match fmtOperands bytes fmt with
    | some ops => .inst fmt name ops
    | none => .unknown name

/-- The index into the next table. -/
def subOpcode (bytes : ℕ → UInt8) (len loc : ℕ) : ℕ :=
  (bytes (loc / 8)).toNat >>> (8 - len - loc % 8) % 2 ^ len

/-- `da_snprintf`: the text, and the places of the bytes it reads.  What a table entry prints is
printed over by the next table. -/
def daSnprintf (bytes : ℕ → UInt8) : DaEntry → DaText × List ℕ
  | .inst fmt name => (instText bytes fmt name, fmtReads fmt)
  | .table sub len loc =>
    let r := daSnprintf bytes (sub (subOpcode bytes len loc))
    (r.1, loc / 8 :: r.2)

/-- The length of an instruction with this first byte. -/
def instLen (opcode : UInt8) : ℕ :=
  let ilc := opcode.toNat / 64
  2 * (if ilc ≥ 2 then ilc else ilc + 1)

/-- What `disassm` leaves: the text, its value, the length of the instruction, and the places
of the bytes it has read. -/
structure Disassm where
  text : DaText
  ilen : ℕ
  reads : List ℕ

/-- `disassm`. -/
def disassm (bytes : ℕ → UInt8) : Disassm :=
  let r := daSnprintf bytes (l1Entry (bytes 0).toNat)
  ⟨r.1, instLen (bytes 0), 0 :: r.2⟩

/-! ### What is read -/

/-- The operands printed depend on the bytes the format reads. -/
theorem fmtOperands_congr {bytes bytes' : ℕ → UInt8} {fmt : InstFmt}
    (h : ∀ i ∈ fmtReads fmt, bytes i = bytes' i) :
    fmtOperands bytes fmt = fmtOperands bytes' fmt := by
  cases fmt <;>
    simp only [fmtReads, List.forall_mem_cons] at h <;>
    simp [fmtOperands, hi4, lo4, dispAt, fullAt, halfAt, h]

/-- The text depends on the bytes that are read. -/
theorem daSnprintf_congr {bytes bytes' : ℕ → UInt8} (e : DaEntry)
    (h : ∀ i ∈ (daSnprintf bytes e).2, bytes i = bytes' i) :
    daSnprintf bytes e = daSnprintf bytes' e := by
  induction e with
  | inst fmt name =>
    have hops := fmtOperands_congr (show ∀ i ∈ fmtReads fmt, bytes i = bytes' i from h)
    rw [daSnprintf, daSnprintf, instText, instText, hops]
  | table sub len loc ih =>
    rw [daSnprintf] at h
    obtain ⟨hsub, hrest⟩ := List.forall_mem_cons.1 h
    have hop : subOpcode bytes len loc = subOpcode bytes' len loc := by
      rw [subOpcode, subOpcode, hsub]
    rw [daSnprintf, daSnprintf, ← hop, ih _ hrest]

/-- So does the whole line, on the bytes the disassembler reads. -/
theorem disassm_congr {bytes bytes' : ℕ → UInt8}
    (h : ∀ i ∈ (disassm bytes).reads, bytes i = bytes' i) : disassm bytes = disassm bytes' := by
  obtain ⟨hzero, hrest⟩ := List.forall_mem_cons.1 h
  rw [disassm, disassm, ← hzero, daSnprintf_congr _ hrest]

/-- An entry reads within the instruction, if every format of its table does. -/
theorem reads_instEntry {insts : List (ℕ × InstFmt × String)} {idx n : ℕ}
    (h : ∀ x ∈ insts, x.1 = idx → ∀ i ∈ fmtReads x.2.1, i < n) (bytes : ℕ → UInt8) :
    ∀ i ∈ (daSnprintf bytes (instEntry insts idx)).2, i < n := by
  rw [instEntry]
  cases hlookup : insts.lookup idx with
  | none => exact nofun
  | some x =>
    obtain ⟨l, l', hl, -⟩ := List.lookup_eq_some_iff.1 hlookup
    exact h (idx, x) (by rw [hl]; exact List.mem_append_right _ (List.mem_cons_self ..)) rfl

/-- The tables have formats that fit into the length of the instruction. -/
theorem l1Insts_fit : ∀ x ∈ l1Insts, ∀ i ∈ fmtReads x.2.1, i < instLen (UInt8.ofNat x.1) := by
  decide +kernel

/-- **Every table and its formats read within the instruction.** -/
theorem l1Tables_fit : ∀ x ∈ l1Tables, x.2.2.2 / 8 < instLen (UInt8.ofNat x.1) ∧
    ∀ y ∈ x.2.1, ∀ i ∈ fmtReads y.2.1, i < instLen (UInt8.ofNat x.1) := by
  decide +kernel

/-- An instruction is two, four or six bytes long. -/
theorem instLen_cases (opcode : UInt8) :
    instLen opcode = 2 ∨ instLen opcode = 4 ∨ instLen opcode = 6 := by
  have hlt := opcode.toNat_lt
  unfold instLen
  dsimp only
  split_ifs <;> omega

/-- **`disassm` reads bytes of the instruction only.** -/
theorem disassm_reads (bytes : ℕ → UInt8) :
    ∀ i ∈ (disassm bytes).reads, i < (disassm bytes).ilen := by
  have hop : UInt8.ofNat (bytes 0).toNat = bytes 0 := UInt8.ofNat_toNat
  refine List.forall_mem_cons.2 ⟨?_, ?_⟩
  · have hlen := instLen_cases (bytes 0)
    show 0 < instLen (bytes 0)
    omega
  · show ∀ i ∈ (daSnprintf bytes (l1Entry (bytes 0).toNat)).2, i < instLen (bytes 0)
    rw [l1Entry]
    cases hlookup : l1Tables.lookup (bytes 0).toNat with
    | none =>
      refine reads_instEntry (fun x hx hidx => ?_) bytes
      rw [← hop, ← hidx]
      exact l1Insts_fit x hx
    | some x =>
      obtain ⟨sub, len, loc⟩ := x
      obtain ⟨l, l', hl, -⟩ := List.lookup_eq_some_iff.1 hlookup
      have hfit := l1Tables_fit ((bytes 0).toNat, sub, len, loc)
        (by rw [hl]; exact List.mem_append_right _ (List.mem_cons_self ..))
      rw [hop] at hfit
      exact List.forall_mem_cons.2 ⟨hfit.1, reads_instEntry (fun y hy _ => hfit.2 y hy) bytes⟩

end Hvf
