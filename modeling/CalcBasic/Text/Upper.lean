/-! Full uppercasing of text, by the case data of the character standard: most
letters move by a fixed distance, a few become several characters. -/
namespace CalcBasic.Text

/-- Every `stride`-th code point from `first` to `last` moves by `shift`. -/
structure CaseRun where
  first : Nat
  last : Nat
  stride : Nat
  shift : Int
  deriving DecidableEq, Repr

def upperRuns : List CaseRun :=
  [
    ⟨97, 122, 1, -32⟩, ⟨224, 246, 1, -32⟩, ⟨248, 254, 1, -32⟩, ⟨257, 303, 2, -1⟩, ⟨307, 311, 2, -1⟩, ⟨314, 328, 2, -1⟩,
    ⟨331, 375, 2, -1⟩, ⟨378, 382, 2, -1⟩, ⟨387, 389, 2, -1⟩, ⟨417, 421, 2, -1⟩, ⟨436, 438, 2, -1⟩, ⟨462, 476, 2, -1⟩,
    ⟨479, 495, 2, -1⟩, ⟨505, 543, 2, -1⟩, ⟨547, 563, 2, -1⟩, ⟨575, 576, 1, 10815⟩, ⟨583, 591, 2, -1⟩, ⟨598, 599, 1, -205⟩,
    ⟨650, 651, 1, -217⟩, ⟨881, 883, 2, -1⟩, ⟨891, 893, 1, 130⟩, ⟨941, 943, 1, -37⟩, ⟨945, 961, 1, -32⟩, ⟨963, 971, 1, -32⟩,
    ⟨973, 974, 1, -63⟩, ⟨985, 1007, 2, -1⟩, ⟨1072, 1103, 1, -32⟩, ⟨1104, 1119, 1, -80⟩, ⟨1121, 1153, 2, -1⟩,
    ⟨1163, 1215, 2, -1⟩, ⟨1218, 1230, 2, -1⟩, ⟨1233, 1327, 2, -1⟩, ⟨1377, 1414, 1, -48⟩, ⟨4304, 4346, 1, 3008⟩,
    ⟨4349, 4351, 1, 3008⟩, ⟨5112, 5117, 1, -8⟩, ⟨7299, 7300, 1, -6242⟩, ⟨7681, 7829, 2, -1⟩, ⟨7841, 7935, 2, -1⟩,
    ⟨7936, 7943, 1, 8⟩, ⟨7952, 7957, 1, 8⟩, ⟨7968, 7975, 1, 8⟩, ⟨7984, 7991, 1, 8⟩, ⟨8000, 8005, 1, 8⟩, ⟨8017, 8023, 2, 8⟩,
    ⟨8032, 8039, 1, 8⟩, ⟨8048, 8049, 1, 74⟩, ⟨8050, 8053, 1, 86⟩, ⟨8054, 8055, 1, 100⟩, ⟨8056, 8057, 1, 128⟩,
    ⟨8058, 8059, 1, 112⟩, ⟨8060, 8061, 1, 126⟩, ⟨8112, 8113, 1, 8⟩, ⟨8144, 8145, 1, 8⟩, ⟨8160, 8161, 1, 8⟩,
    ⟨8560, 8575, 1, -16⟩, ⟨9424, 9449, 1, -26⟩, ⟨11312, 11359, 1, -48⟩, ⟨11368, 11372, 2, -1⟩, ⟨11393, 11491, 2, -1⟩,
    ⟨11500, 11502, 2, -1⟩, ⟨11520, 11557, 1, -7264⟩, ⟨42561, 42605, 2, -1⟩, ⟨42625, 42651, 2, -1⟩, ⟨42787, 42799, 2, -1⟩,
    ⟨42803, 42863, 2, -1⟩, ⟨42874, 42876, 2, -1⟩, ⟨42879, 42887, 2, -1⟩, ⟨42897, 42899, 2, -1⟩, ⟨42903, 42921, 2, -1⟩,
    ⟨42933, 42947, 2, -1⟩, ⟨42952, 42954, 2, -1⟩, ⟨42957, 42971, 2, -1⟩, ⟨43888, 43967, 1, -38864⟩, ⟨65345, 65370, 1, -32⟩,
    ⟨66600, 66639, 1, -40⟩, ⟨66776, 66811, 1, -40⟩, ⟨66967, 66977, 1, -39⟩, ⟨66979, 66993, 1, -39⟩, ⟨66995, 67001, 1, -39⟩,
    ⟨67003, 67004, 1, -39⟩, ⟨68800, 68850, 1, -64⟩, ⟨68976, 68997, 1, -32⟩, ⟨71872, 71903, 1, -32⟩, ⟨93792, 93823, 1, -32⟩,
    ⟨93883, 93907, 1, -27⟩, ⟨125218, 125251, 1, -34⟩
  ]

/-- Letters by themselves. -/
def upperSequences : List (Nat × List Nat) :=
  [
    (181, [924]), (223, [83, 83]), (255, [376]), (305, [73]), (329, [700, 78]), (383, [83]), (384, [579]), (392, [391]),
    (396, [395]), (402, [401]), (405, [502]), (409, [408]), (410, [573]), (411, [42972]), (414, [544]), (424, [423]),
    (429, [428]), (432, [431]), (441, [440]), (445, [444]), (447, [503]), (453, [452]), (454, [452]), (456, [455]),
    (457, [455]), (459, [458]), (460, [458]), (477, [398]), (496, [74, 780]), (498, [497]), (499, [497]), (501, [500]),
    (572, [571]), (578, [577]), (592, [11375]), (593, [11373]), (594, [11376]), (595, [385]), (596, [390]), (601, [399]),
    (603, [400]), (604, [42923]), (608, [403]), (609, [42924]), (611, [404]), (612, [42955]), (613, [42893]), (614, [42922]),
    (616, [407]), (617, [406]), (618, [42926]), (619, [11362]), (620, [42925]), (623, [412]), (625, [11374]), (626, [413]),
    (629, [415]), (637, [11364]), (640, [422]), (642, [42949]), (643, [425]), (647, [42929]), (648, [430]), (649, [580]),
    (652, [581]), (658, [439]), (669, [42930]), (670, [42928]), (837, [921]), (887, [886]), (912, [921, 776, 769]),
    (940, [902]), (944, [933, 776, 769]), (962, [931]), (972, [908]), (976, [914]), (977, [920]), (981, [934]), (982, [928]),
    (983, [975]), (1008, [922]), (1009, [929]), (1010, [1017]), (1011, [895]), (1013, [917]), (1016, [1015]), (1019, [1018]),
    (1231, [1216]), (1415, [1333, 1362]), (7296, [1042]), (7297, [1044]), (7298, [1054]), (7301, [1058]), (7302, [1066]),
    (7303, [1122]), (7304, [42570]), (7306, [7305]), (7545, [42877]), (7549, [11363]), (7566, [42950]), (7830, [72, 817]),
    (7831, [84, 776]), (7832, [87, 778]), (7833, [89, 778]), (7834, [65, 702]), (7835, [7776]), (8016, [933, 787]),
    (8018, [933, 787, 768]), (8020, [933, 787, 769]), (8022, [933, 787, 834]), (8064, [7944, 921]), (8065, [7945, 921]),
    (8066, [7946, 921]), (8067, [7947, 921]), (8068, [7948, 921]), (8069, [7949, 921]), (8070, [7950, 921]),
    (8071, [7951, 921]), (8072, [7944, 921]), (8073, [7945, 921]), (8074, [7946, 921]), (8075, [7947, 921]),
    (8076, [7948, 921]), (8077, [7949, 921]), (8078, [7950, 921]), (8079, [7951, 921]), (8080, [7976, 921]),
    (8081, [7977, 921]), (8082, [7978, 921]), (8083, [7979, 921]), (8084, [7980, 921]), (8085, [7981, 921]),
    (8086, [7982, 921]), (8087, [7983, 921]), (8088, [7976, 921]), (8089, [7977, 921]), (8090, [7978, 921]),
    (8091, [7979, 921]), (8092, [7980, 921]), (8093, [7981, 921]), (8094, [7982, 921]), (8095, [7983, 921]),
    (8096, [8040, 921]), (8097, [8041, 921]), (8098, [8042, 921]), (8099, [8043, 921]), (8100, [8044, 921]),
    (8101, [8045, 921]), (8102, [8046, 921]), (8103, [8047, 921]), (8104, [8040, 921]), (8105, [8041, 921]),
    (8106, [8042, 921]), (8107, [8043, 921]), (8108, [8044, 921]), (8109, [8045, 921]), (8110, [8046, 921]),
    (8111, [8047, 921]), (8114, [8122, 921]), (8115, [913, 921]), (8116, [902, 921]), (8118, [913, 834]),
    (8119, [913, 834, 921]), (8124, [913, 921]), (8126, [921]), (8130, [8138, 921]), (8131, [919, 921]), (8132, [905, 921]),
    (8134, [919, 834]), (8135, [919, 834, 921]), (8140, [919, 921]), (8146, [921, 776, 768]), (8147, [921, 776, 769]),
    (8150, [921, 834]), (8151, [921, 776, 834]), (8162, [933, 776, 768]), (8163, [933, 776, 769]), (8164, [929, 787]),
    (8165, [8172]), (8166, [933, 834]), (8167, [933, 776, 834]), (8178, [8186, 921]), (8179, [937, 921]), (8180, [911, 921]),
    (8182, [937, 834]), (8183, [937, 834, 921]), (8188, [937, 921]), (8526, [8498]), (8580, [8579]), (11361, [11360]),
    (11365, [570]), (11366, [574]), (11379, [11378]), (11382, [11381]), (11507, [11506]), (11559, [4295]), (11565, [4301]),
    (42892, [42891]), (42900, [42948]), (42998, [42997]), (43859, [42931]), (64256, [70, 70]), (64257, [70, 73]),
    (64258, [70, 76]), (64259, [70, 70, 73]), (64260, [70, 70, 76]), (64261, [83, 84]), (64262, [83, 84]),
    (64275, [1348, 1350]), (64276, [1348, 1333]), (64277, [1348, 1339]), (64278, [1358, 1350]), (64279, [1348, 1341])
  ]

def CaseRun.covers (run : CaseRun) (code : Nat) : Bool :=
  run.first ≤ code && code ≤ run.last && (code - run.first) % run.stride == 0

/-- The uppercase form of a character, itself if it has none. -/
def upperChar (c : Char) : List Char :=
  let code := c.toNat
  match upperRuns.find? (·.covers code) with
  | some run => [Char.ofNat (code + run.shift).toNat]
  | none =>
    match upperSequences.lookup code with
    | some codes => codes.map Char.ofNat
    | none => [c]

def upper (text : String) : String := String.ofList (text.toList.flatMap upperChar)

end CalcBasic.Text
