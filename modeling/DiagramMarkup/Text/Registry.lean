import DiagramMarkup.Text.Charset

/-!
# Registered character sets

Character sets by their registered names, for text that does not tell how it is written. Some registered sets are not
read here.
-/

namespace DiagramMarkup.Text

namespace Chart

/-- The upper half of IBM437. -/
def ibm437 : List (Nat × Nat × Nat) :=
  [(128,199,1), (129,252,1), (130,233,1), (131,226,1), (132,228,1), (133,224,1), (134,229,1),
   (135,231,1), (136,234,2), (138,232,1), (139,239,1), (140,238,1), (141,236,1), (142,196,2),
   (144,201,1), (145,230,1), (146,198,1), (147,244,1), (148,246,1), (149,242,1), (150,251,1),
   (151,249,1), (152,255,1), (153,214,1), (154,220,1), (155,162,2), (157,165,1), (158,8359,1),
   (159,402,1), (160,225,1), (161,237,1), (162,243,1), (163,250,1), (164,241,1), (165,209,1),
   (166,170,1), (167,186,1), (168,191,1), (169,8976,1), (170,172,1), (171,189,1), (172,188,1),
   (173,161,1), (174,171,1), (175,187,1), (176,9617,3), (179,9474,1), (180,9508,1), (181,9569,2),
   (183,9558,1), (184,9557,1), (185,9571,1), (186,9553,1), (187,9559,1), (188,9565,1),
   (189,9564,1), (190,9563,1), (191,9488,1), (192,9492,1), (193,9524,1), (194,9516,1),
   (195,9500,1), (196,9472,1), (197,9532,1), (198,9566,2), (200,9562,1), (201,9556,1),
   (202,9577,1), (203,9574,1), (204,9568,1), (205,9552,1), (206,9580,1), (207,9575,2),
   (209,9572,2), (211,9561,1), (212,9560,1), (213,9554,2), (215,9579,1), (216,9578,1),
   (217,9496,1), (218,9484,1), (219,9608,1), (220,9604,1), (221,9612,1), (222,9616,1),
   (223,9600,1), (224,945,1), (225,223,1), (226,915,1), (227,960,1), (228,931,1), (229,963,1),
   (230,181,1), (231,964,1), (232,934,1), (233,920,1), (234,937,1), (235,948,1), (236,8734,1),
   (237,966,1), (238,949,1), (239,8745,1), (240,8801,1), (241,177,1), (242,8805,1), (243,8804,1),
   (244,8992,2), (246,247,1), (247,8776,1), (248,176,1), (249,8729,1), (250,183,1), (251,8730,1),
   (252,8319,1), (253,178,1), (254,9632,1), (255,160,1)]

/-- The upper half of IBM850. -/
def ibm850 : List (Nat × Nat × Nat) :=
  [(128,199,1), (129,252,1), (130,233,1), (131,226,1), (132,228,1), (133,224,1), (134,229,1),
   (135,231,1), (136,234,2), (138,232,1), (139,239,1), (140,238,1), (141,236,1), (142,196,2),
   (144,201,1), (145,230,1), (146,198,1), (147,244,1), (148,246,1), (149,242,1), (150,251,1),
   (151,249,1), (152,255,1), (153,214,1), (154,220,1), (155,248,1), (156,163,1), (157,216,1),
   (158,215,1), (159,402,1), (160,225,1), (161,237,1), (162,243,1), (163,250,1), (164,241,1),
   (165,209,1), (166,170,1), (167,186,1), (168,191,1), (169,174,1), (170,172,1), (171,189,1),
   (172,188,1), (173,161,1), (174,171,1), (175,187,1), (176,9617,3), (179,9474,1), (180,9508,1),
   (181,193,2), (183,192,1), (184,169,1), (185,9571,1), (186,9553,1), (187,9559,1), (188,9565,1),
   (189,162,1), (190,165,1), (191,9488,1), (192,9492,1), (193,9524,1), (194,9516,1), (195,9500,1),
   (196,9472,1), (197,9532,1), (198,227,1), (199,195,1), (200,9562,1), (201,9556,1), (202,9577,1),
   (203,9574,1), (204,9568,1), (205,9552,1), (206,9580,1), (207,164,1), (208,240,1), (209,208,1),
   (210,202,2), (212,200,1), (213,305,1), (214,205,3), (217,9496,1), (218,9484,1), (219,9608,1),
   (220,9604,1), (221,166,1), (222,204,1), (223,9600,1), (224,211,1), (225,223,1), (226,212,1),
   (227,210,1), (228,245,1), (229,213,1), (230,181,1), (231,254,1), (232,222,1), (233,218,2),
   (235,217,1), (236,253,1), (237,221,1), (238,175,1), (239,180,1), (240,173,1), (241,177,1),
   (242,8215,1), (243,190,1), (244,182,1), (245,167,1), (246,247,1), (247,184,1), (248,176,1),
   (249,168,1), (250,183,1), (251,185,1), (252,179,1), (253,178,1), (254,9632,1), (255,160,1)]

/-- The upper half of IBM852. -/
def ibm852 : List (Nat × Nat × Nat) :=
  [(128,199,1), (129,252,1), (130,233,1), (131,226,1), (132,228,1), (133,367,1), (134,263,1),
   (135,231,1), (136,322,1), (137,235,1), (138,336,2), (140,238,1), (141,377,1), (142,196,1),
   (143,262,1), (144,201,1), (145,313,2), (147,244,1), (148,246,1), (149,317,2), (151,346,2),
   (153,214,1), (154,220,1), (155,356,2), (157,321,1), (158,215,1), (159,269,1), (160,225,1),
   (161,237,1), (162,243,1), (163,250,1), (164,260,2), (166,381,2), (168,280,2), (170,172,1),
   (171,378,1), (172,268,1), (173,351,1), (174,171,1), (175,187,1), (176,9617,3), (179,9474,1),
   (180,9508,1), (181,193,2), (183,282,1), (184,350,1), (185,9571,1), (186,9553,1), (187,9559,1),
   (188,9565,1), (189,379,2), (191,9488,1), (192,9492,1), (193,9524,1), (194,9516,1), (195,9500,1),
   (196,9472,1), (197,9532,1), (198,258,2), (200,9562,1), (201,9556,1), (202,9577,1), (203,9574,1),
   (204,9568,1), (205,9552,1), (206,9580,1), (207,164,1), (208,273,1), (209,272,1), (210,270,1),
   (211,203,1), (212,271,1), (213,327,1), (214,205,2), (216,283,1), (217,9496,1), (218,9484,1),
   (219,9608,1), (220,9604,1), (221,354,1), (222,366,1), (223,9600,1), (224,211,1), (225,223,1),
   (226,212,1), (227,323,2), (229,328,1), (230,352,2), (232,340,1), (233,218,1), (234,341,1),
   (235,368,1), (236,253,1), (237,221,1), (238,355,1), (239,180,1), (240,173,1), (241,733,1),
   (242,731,1), (243,711,1), (244,728,1), (245,167,1), (246,247,1), (247,184,1), (248,176,1),
   (249,168,1), (250,729,1), (251,369,1), (252,344,2), (254,9632,1), (255,160,1)]

/-- The upper half of IBM855. -/
def ibm855 : List (Nat × Nat × Nat) :=
  [(128,1106,1), (129,1026,1), (130,1107,1), (131,1027,1), (132,1105,1), (133,1025,1),
   (134,1108,1), (135,1028,1), (136,1109,1), (137,1029,1), (138,1110,1), (139,1030,1),
   (140,1111,1), (141,1031,1), (142,1112,1), (143,1032,1), (144,1113,1), (145,1033,1),
   (146,1114,1), (147,1034,1), (148,1115,1), (149,1035,1), (150,1116,1), (151,1036,1),
   (152,1118,1), (153,1038,1), (154,1119,1), (155,1039,1), (156,1102,1), (157,1070,1),
   (158,1098,1), (159,1066,1), (160,1072,1), (161,1040,1), (162,1073,1), (163,1041,1),
   (164,1094,1), (165,1062,1), (166,1076,1), (167,1044,1), (168,1077,1), (169,1045,1),
   (170,1092,1), (171,1060,1), (172,1075,1), (173,1043,1), (174,171,1), (175,187,1), (176,9617,3),
   (179,9474,1), (180,9508,1), (181,1093,1), (182,1061,1), (183,1080,1), (184,1048,1),
   (185,9571,1), (186,9553,1), (187,9559,1), (188,9565,1), (189,1081,1), (190,1049,1),
   (191,9488,1), (192,9492,1), (193,9524,1), (194,9516,1), (195,9500,1), (196,9472,1),
   (197,9532,1), (198,1082,1), (199,1050,1), (200,9562,1), (201,9556,1), (202,9577,1),
   (203,9574,1), (204,9568,1), (205,9552,1), (206,9580,1), (207,164,1), (208,1083,1), (209,1051,1),
   (210,1084,1), (211,1052,1), (212,1085,1), (213,1053,1), (214,1086,1), (215,1054,1),
   (216,1087,1), (217,9496,1), (218,9484,1), (219,9608,1), (220,9604,1), (221,1055,1),
   (222,1103,1), (223,9600,1), (224,1071,1), (225,1088,1), (226,1056,1), (227,1089,1),
   (228,1057,1), (229,1090,1), (230,1058,1), (231,1091,1), (232,1059,1), (233,1078,1),
   (234,1046,1), (235,1074,1), (236,1042,1), (237,1100,1), (238,1068,1), (239,8470,1), (240,173,1),
   (241,1099,1), (242,1067,1), (243,1079,1), (244,1047,1), (245,1096,1), (246,1064,1),
   (247,1101,1), (248,1069,1), (249,1097,1), (250,1065,1), (251,1095,1), (252,1063,1), (253,167,1),
   (254,9632,1), (255,160,1)]

/-- The upper half of IBM00858. -/
def ibm858 : List (Nat × Nat × Nat) :=
  [(128,199,1), (129,252,1), (130,233,1), (131,226,1), (132,228,1), (133,224,1), (134,229,1),
   (135,231,1), (136,234,2), (138,232,1), (139,239,1), (140,238,1), (141,236,1), (142,196,2),
   (144,201,1), (145,230,1), (146,198,1), (147,244,1), (148,246,1), (149,242,1), (150,251,1),
   (151,249,1), (152,255,1), (153,214,1), (154,220,1), (155,248,1), (156,163,1), (157,216,1),
   (158,215,1), (159,402,1), (160,225,1), (161,237,1), (162,243,1), (163,250,1), (164,241,1),
   (165,209,1), (166,170,1), (167,186,1), (168,191,1), (169,174,1), (170,172,1), (171,189,1),
   (172,188,1), (173,161,1), (174,171,1), (175,187,1), (176,9617,3), (179,9474,1), (180,9508,1),
   (181,193,2), (183,192,1), (184,169,1), (185,9571,1), (186,9553,1), (187,9559,1), (188,9565,1),
   (189,162,1), (190,165,1), (191,9488,1), (192,9492,1), (193,9524,1), (194,9516,1), (195,9500,1),
   (196,9472,1), (197,9532,1), (198,227,1), (199,195,1), (200,9562,1), (201,9556,1), (202,9577,1),
   (203,9574,1), (204,9568,1), (205,9552,1), (206,9580,1), (207,164,1), (208,240,1), (209,208,1),
   (210,202,2), (212,200,1), (213,8364,1), (214,205,3), (217,9496,1), (218,9484,1), (219,9608,1),
   (220,9604,1), (221,166,1), (222,204,1), (223,9600,1), (224,211,1), (225,223,1), (226,212,1),
   (227,210,1), (228,245,1), (229,213,1), (230,181,1), (231,254,1), (232,222,1), (233,218,2),
   (235,217,1), (236,253,1), (237,221,1), (238,175,1), (239,180,1), (240,173,1), (241,177,1),
   (242,8215,1), (243,190,1), (244,182,1), (245,167,1), (246,247,1), (247,184,1), (248,176,1),
   (249,168,1), (250,183,1), (251,185,1), (252,179,1), (253,178,1), (254,9632,1), (255,160,1)]

/-- The upper half of IBM860. -/
def ibm860 : List (Nat × Nat × Nat) :=
  [(128,199,1), (129,252,1), (130,233,1), (131,226,2), (133,224,1), (134,193,1), (135,231,1),
   (136,234,1), (137,202,1), (138,232,1), (139,205,1), (140,212,1), (141,236,1), (142,195,1),
   (143,194,1), (144,201,1), (145,192,1), (146,200,1), (147,244,2), (149,242,1), (150,218,1),
   (151,249,1), (152,204,1), (153,213,1), (154,220,1), (155,162,2), (157,217,1), (158,8359,1),
   (159,211,1), (160,225,1), (161,237,1), (162,243,1), (163,250,1), (164,241,1), (165,209,1),
   (166,170,1), (167,186,1), (168,191,1), (169,210,1), (170,172,1), (171,189,1), (172,188,1),
   (173,161,1), (174,171,1), (175,187,1), (176,9617,3), (179,9474,1), (180,9508,1), (181,9569,2),
   (183,9558,1), (184,9557,1), (185,9571,1), (186,9553,1), (187,9559,1), (188,9565,1),
   (189,9564,1), (190,9563,1), (191,9488,1), (192,9492,1), (193,9524,1), (194,9516,1),
   (195,9500,1), (196,9472,1), (197,9532,1), (198,9566,2), (200,9562,1), (201,9556,1),
   (202,9577,1), (203,9574,1), (204,9568,1), (205,9552,1), (206,9580,1), (207,9575,2),
   (209,9572,2), (211,9561,1), (212,9560,1), (213,9554,2), (215,9579,1), (216,9578,1),
   (217,9496,1), (218,9484,1), (219,9608,1), (220,9604,1), (221,9612,1), (222,9616,1),
   (223,9600,1), (224,945,1), (225,223,1), (226,915,1), (227,960,1), (228,931,1), (229,963,1),
   (230,181,1), (231,964,1), (232,934,1), (233,920,1), (234,937,1), (235,948,1), (236,8734,1),
   (237,966,1), (238,949,1), (239,8745,1), (240,8801,1), (241,177,1), (242,8805,1), (243,8804,1),
   (244,8992,2), (246,247,1), (247,8776,1), (248,176,1), (249,8729,1), (250,183,1), (251,8730,1),
   (252,8319,1), (253,178,1), (254,9632,1), (255,160,1)]

/-- The upper half of IBM862. -/
def ibm862 : List (Nat × Nat × Nat) :=
  [(128,1488,27), (155,162,2), (157,165,1), (158,8359,1), (159,402,1), (160,225,1), (161,237,1),
   (162,243,1), (163,250,1), (164,241,1), (165,209,1), (166,170,1), (167,186,1), (168,191,1),
   (169,8976,1), (170,172,1), (171,189,1), (172,188,1), (173,161,1), (174,171,1), (175,187,1),
   (176,9617,3), (179,9474,1), (180,9508,1), (181,9569,2), (183,9558,1), (184,9557,1),
   (185,9571,1), (186,9553,1), (187,9559,1), (188,9565,1), (189,9564,1), (190,9563,1),
   (191,9488,1), (192,9492,1), (193,9524,1), (194,9516,1), (195,9500,1), (196,9472,1),
   (197,9532,1), (198,9566,2), (200,9562,1), (201,9556,1), (202,9577,1), (203,9574,1),
   (204,9568,1), (205,9552,1), (206,9580,1), (207,9575,2), (209,9572,2), (211,9561,1),
   (212,9560,1), (213,9554,2), (215,9579,1), (216,9578,1), (217,9496,1), (218,9484,1),
   (219,9608,1), (220,9604,1), (221,9612,1), (222,9616,1), (223,9600,1), (224,945,1), (225,223,1),
   (226,915,1), (227,960,1), (228,931,1), (229,963,1), (230,181,1), (231,964,1), (232,934,1),
   (233,920,1), (234,937,1), (235,948,1), (236,8734,1), (237,966,1), (238,949,1), (239,8745,1),
   (240,8801,1), (241,177,1), (242,8805,1), (243,8804,1), (244,8992,2), (246,247,1), (247,8776,1),
   (248,176,1), (249,8729,1), (250,183,1), (251,8730,1), (252,8319,1), (253,178,1), (254,9632,1),
   (255,160,1)]

/-- The upper half of IBM863. -/
def ibm863 : List (Nat × Nat × Nat) :=
  [(128,199,1), (129,252,1), (130,233,1), (131,226,1), (132,194,1), (133,224,1), (134,182,1),
   (135,231,1), (136,234,2), (138,232,1), (139,239,1), (140,238,1), (141,8215,1), (142,192,1),
   (143,167,1), (144,201,1), (145,200,1), (146,202,1), (147,244,1), (148,203,1), (149,207,1),
   (150,251,1), (151,249,1), (152,164,1), (153,212,1), (154,220,1), (155,162,2), (157,217,1),
   (158,219,1), (159,402,1), (160,166,1), (161,180,1), (162,243,1), (163,250,1), (164,168,1),
   (165,184,1), (166,179,1), (167,175,1), (168,206,1), (169,8976,1), (170,172,1), (171,189,1),
   (172,188,1), (173,190,1), (174,171,1), (175,187,1), (176,9617,3), (179,9474,1), (180,9508,1),
   (181,9569,2), (183,9558,1), (184,9557,1), (185,9571,1), (186,9553,1), (187,9559,1),
   (188,9565,1), (189,9564,1), (190,9563,1), (191,9488,1), (192,9492,1), (193,9524,1),
   (194,9516,1), (195,9500,1), (196,9472,1), (197,9532,1), (198,9566,2), (200,9562,1),
   (201,9556,1), (202,9577,1), (203,9574,1), (204,9568,1), (205,9552,1), (206,9580,1),
   (207,9575,2), (209,9572,2), (211,9561,1), (212,9560,1), (213,9554,2), (215,9579,1),
   (216,9578,1), (217,9496,1), (218,9484,1), (219,9608,1), (220,9604,1), (221,9612,1),
   (222,9616,1), (223,9600,1), (224,945,1), (225,223,1), (226,915,1), (227,960,1), (228,931,1),
   (229,963,1), (230,181,1), (231,964,1), (232,934,1), (233,920,1), (234,937,1), (235,948,1),
   (236,8734,1), (237,966,1), (238,949,1), (239,8745,1), (240,8801,1), (241,177,1), (242,8805,1),
   (243,8804,1), (244,8992,2), (246,247,1), (247,8776,1), (248,176,1), (249,8729,1), (250,183,1),
   (251,8730,1), (252,8319,1), (253,178,1), (254,9632,1), (255,160,1)]

/-- The upper half of IBM865. -/
def ibm865 : List (Nat × Nat × Nat) :=
  [(128,199,1), (129,252,1), (130,233,1), (131,226,1), (132,228,1), (133,224,1), (134,229,1),
   (135,231,1), (136,234,2), (138,232,1), (139,239,1), (140,238,1), (141,236,1), (142,196,2),
   (144,201,1), (145,230,1), (146,198,1), (147,244,1), (148,246,1), (149,242,1), (150,251,1),
   (151,249,1), (152,255,1), (153,214,1), (154,220,1), (155,248,1), (156,163,1), (157,216,1),
   (158,8359,1), (159,402,1), (160,225,1), (161,237,1), (162,243,1), (163,250,1), (164,241,1),
   (165,209,1), (166,170,1), (167,186,1), (168,191,1), (169,8976,1), (170,172,1), (171,189,1),
   (172,188,1), (173,161,1), (174,171,1), (175,164,1), (176,9617,3), (179,9474,1), (180,9508,1),
   (181,9569,2), (183,9558,1), (184,9557,1), (185,9571,1), (186,9553,1), (187,9559,1),
   (188,9565,1), (189,9564,1), (190,9563,1), (191,9488,1), (192,9492,1), (193,9524,1),
   (194,9516,1), (195,9500,1), (196,9472,1), (197,9532,1), (198,9566,2), (200,9562,1),
   (201,9556,1), (202,9577,1), (203,9574,1), (204,9568,1), (205,9552,1), (206,9580,1),
   (207,9575,2), (209,9572,2), (211,9561,1), (212,9560,1), (213,9554,2), (215,9579,1),
   (216,9578,1), (217,9496,1), (218,9484,1), (219,9608,1), (220,9604,1), (221,9612,1),
   (222,9616,1), (223,9600,1), (224,945,1), (225,223,1), (226,915,1), (227,960,1), (228,931,1),
   (229,963,1), (230,181,1), (231,964,1), (232,934,1), (233,920,1), (234,937,1), (235,948,1),
   (236,8734,1), (237,966,1), (238,949,1), (239,8745,1), (240,8801,1), (241,177,1), (242,8805,1),
   (243,8804,1), (244,8992,2), (246,247,1), (247,8776,1), (248,176,1), (249,8729,1), (250,183,1),
   (251,8730,1), (252,8319,1), (253,178,1), (254,9632,1), (255,160,1)]

/-- The upper half of iso-8859-1. -/
def iso88591 : List (Nat × Nat × Nat) :=
  [(128,128,128)]

/-- The upper half of iso-8859-9. -/
def iso88599 : List (Nat × Nat × Nat) :=
  [(128,128,80), (208,286,1), (209,209,12), (221,304,1), (222,350,1), (223,223,17), (240,287,1),
   (241,241,12), (253,305,1), (254,351,1), (255,255,1)]


end Chart

namespace Charset

/-- Registered names, all in small letters, with the sets they name; nothing for sets that are not read. -/
def registry : List (List String × Option Charset) :=
  [(["us-ascii", "iso-ir-6", "ansi_x3.4-1968", "ansi_x3.4-1986", "iso_646.irv:1991", "iso646-us", "us",
     "ibm367", "cp367", "csascii"], some (.chart [])),
   (["utf-8", "csutf8"], some .utf8),
   (["utf-16", "csutf16", "utf-16be", "csutf16be"], some (.utf16 true)),
   (["utf-16le", "csutf16le"], some (.utf16 false)),
   (["iso-8859-1", "iso_8859-1:1987", "iso_8859-1", "iso-ir-100", "latin1", "l1", "ibm819", "cp819",
     "csisolatin1"], some (.chart Chart.iso88591)),
   (["iso-8859-2", "iso_8859-2:1987", "iso_8859-2", "iso-ir-101", "latin2", "l2", "csisolatin2"],
     some (.chart Chart.iso88592)),
   (["iso-8859-3", "iso_8859-3:1988", "iso_8859-3", "iso-ir-109", "latin3", "l3", "csisolatin3"],
     some (.chart Chart.iso88593)),
   (["iso-8859-4", "iso_8859-4:1988", "iso_8859-4", "iso-ir-110", "latin4", "l4", "csisolatin4"],
     some (.chart Chart.iso88594)),
   (["iso-8859-5", "iso_8859-5:1988", "iso_8859-5", "iso-ir-144", "cyrillic", "csisolatincyrillic"],
     some (.chart Chart.iso88595)),
   (["iso-8859-6", "iso_8859-6:1987", "iso_8859-6", "iso-ir-127", "ecma-114", "asmo-708", "arabic",
     "csisolatinarabic", "iso-8859-6-e", "iso_8859-6-e", "csiso88596e", "iso-8859-6-i", "iso_8859-6-i",
     "csiso88596i"], some (.chart Chart.iso88596)),
   (["iso-8859-7", "iso_8859-7:1987", "iso_8859-7", "iso-ir-126", "elot_928", "ecma-118", "greek",
     "greek8", "csisolatingreek"], some (.chart Chart.iso88597)),
   (["iso-8859-8", "iso_8859-8:1988", "iso_8859-8", "iso-ir-138", "hebrew", "csisolatinhebrew",
     "iso-8859-8-e", "iso_8859-8-e", "csiso88598e", "iso-8859-8-i", "iso_8859-8-i", "csiso88598i"],
     some (.chart Chart.iso88598)),
   (["iso-8859-9", "iso_8859-9:1989", "iso_8859-9", "iso-ir-148", "latin5", "l5", "csisolatin5"],
     some (.chart Chart.iso88599)),
   (["iso-8859-10", "iso_8859-10:1992", "iso-ir-157", "l6", "latin6", "csisolatin6"],
     some (.chart Chart.iso885910)),
   (["iso-8859-13", "csiso885913"], some (.chart Chart.iso885913)),
   (["iso-8859-14", "iso_8859-14:1998", "iso_8859-14", "iso-ir-199", "latin8", "iso-celtic", "l8",
     "csiso885914"], some (.chart Chart.iso885914)),
   (["iso-8859-15", "iso_8859-15", "latin-9", "csiso885915"], some (.chart Chart.iso885915)),
   (["iso-8859-16", "iso_8859-16:2001", "iso_8859-16", "iso-ir-226", "latin10", "l10", "csiso885916"],
     some (.chart Chart.iso885916)),
   (["ibm437", "cp437", "437", "cspc8codepage437"], some (.chart Chart.ibm437)),
   (["ibm850", "cp850", "850", "cspc850multilingual"], some (.chart Chart.ibm850)),
   (["ibm852", "cp852", "852", "cspcp852"], some (.chart Chart.ibm852)),
   (["ibm855", "cp855", "855", "csibm855"], some (.chart Chart.ibm855)),
   (["ibm00858", "ccsid00858", "cp00858", "pc-multilingual-850+euro", "csibm00858"],
     some (.chart Chart.ibm858)),
   (["ibm860", "cp860", "860", "csibm860"], some (.chart Chart.ibm860)),
   (["ibm862", "cp862", "862", "cspc862latinhebrew"], some (.chart Chart.ibm862)),
   (["ibm863", "cp863", "863", "csibm863"], some (.chart Chart.ibm863)),
   (["ibm865", "cp865", "865", "csibm865"], some (.chart Chart.ibm865)),
   (["ibm866", "cp866", "866", "csibm866"], some (.chart Chart.ibm866)),
   (["koi8-r", "cskoi8r"], some (.chart Chart.koi8R)),
   (["koi8-u", "cskoi8u"], some (.chart Chart.koi8U)),
   (["macintosh", "mac", "csmacintosh"], some (.chart Chart.macintosh)),
   (["windows-874", "cswindows874"], some (.chart Chart.windows874)),
   (["windows-1250", "cswindows1250"], some (.chart Chart.windows1250)),
   (["windows-1251", "cswindows1251"], some (.chart Chart.windows1251)),
   (["windows-1252", "cswindows1252"], some (.chart Chart.windows1252)),
   (["windows-1253", "cswindows1253"], some (.chart Chart.windows1253)),
   (["windows-1254", "cswindows1254"], some (.chart Chart.windows1254)),
   (["windows-1255", "cswindows1255"], some (.chart Chart.windows1255)),
   (["windows-1256", "cswindows1256"], some (.chart Chart.windows1256)),
   (["windows-1257", "cswindows1257"], some (.chart Chart.windows1257)),
   (["windows-1258", "cswindows1258"], some (.chart Chart.windows1258)),
   (["euc-jp", "extended_unix_code_packed_format_for_japanese", "cseucpkdfmtjapanese", "iso-2022-jp",
     "csiso2022jp", "shift_jis", "ms_kanji", "csshiftjis", "euc-kr", "cseuckr", "gb18030", "csgb18030",
     "gbk", "cp936", "ms936", "windows-936", "csgbk", "hz-gb-2312", "cshzgb2312", "big5", "csbig5"],
     some .multibyte),
   (["utf-7", "csutf7", "utf-32", "csutf32", "utf-32be", "csutf32be", "utf-32le", "csutf32le", "scsu",
     "csscsu", "cesu-8", "cscesu8", "gb2312", "csgb2312", "big5-hkscs", "csbig5hkscs", "tis-620",
     "cstis620", "iso-8859-11", "iso-2022-kr", "csiso2022kr", "iso-2022-jp-2", "csiso2022jp2",
     "windows-31j", "cswindows31j", "ibm775", "cp775", "cspc775baltic", "ibm857", "cp857", "857",
     "csibm857", "ibm861", "cp861", "861", "cp-is", "csibm861", "ibm864", "cp864", "csibm864", "ibm869",
     "cp869", "869", "cp-gr", "csibm869"], none)]

/-- The character set with a registered name, in letters of any case; nothing when the name is not registered, and
nothing inside when the set is not read. -/
def ofRegistered? (name : String) : Option (Option Charset) :=
  let key := (trim name).map Number.lowerAscii
  (registry.find? fun (names, _) => names.contains key).map (·.2)

end Charset

end DiagramMarkup.Text
